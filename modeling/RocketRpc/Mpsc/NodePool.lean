import RocketRpc.Lib.FreeLists
import RocketRpc.Mpsc.QueueOrder
import Mathlib.Data.Set.List

/-
  `MpscQueue` with the nodes of `MpscNodePool` (`rocket/net/mpsc_queue.h`), as
  `TcpConnection::send` and `drainWriteQueue` use them.

  A producer takes a node from the free list of its thread, writes the message into it and pushes
  it; the consumer pops the node, moves the message out and gives the node to the free list of its
  own thread. So a node comes back under the same address while other producers are inside of
  `push`, and other queues of the process write to nodes from the same lists. `recycled_nodes`
  says that no operation of the queue touches a node that is not its own, and that the messages
  come out in the order of their exchanges all the same.
-/

namespace RocketRpc.Mpsc

open LinkedChain

variable {ι ν μ : Type} [DecidableEq ι] [DecidableEq ν]

/-- `MpscNodePool::kMaxFree`. -/
def kMaxFree : Nat := 128

/-- A connection's queue, with the free lists of the producers' threads and of the consumer's
    thread (`none`). -/
structure Recycler (ι ν μ : Type) where
  shared : Shared ι ν
  pool : FreeLists (Option ι) ν := {}
  /-- `data` of every node. -/
  data : ν → μ
  /-- The node that a producer has made and not pushed yet. -/
  holding : ι → Option ν := fun _ => none
  /-- The node that the consumer has popped and not freed yet. -/
  popped : Option ν := none
  /-- The nodes of the other queues. -/
  away : List ν := []

inductive RecycleLabel (ι ν μ : Type) where
  /-- `MpscNodePool::alloc`; `fresh` is what `new` would give. -/
  | alloc (i : ι) (m : μ) (fresh : ν)
  | push (i : ι)
  | produce (i : ι)
  | pop
  | consume
  /-- The consumer moves the message out and calls `MpscNodePool::free`, which leaves `scrap`. -/
  | free (scrap : μ)
  | allocOther (t : Option ι) (m : μ) (fresh : ν)
  /-- Another queue stores a link in one of its nodes. -/
  | linkOther (n : ν) (next : Option (MpscNode ν))
  | freeOther (t : Option ι) (n : ν) (scrap : μ)

inductive RecycleEvent (μ : Type) where
  /-- The exchange of `tail_` with the node of this message. -/
  | sent (m : μ)
  | received (m : μ)
  deriving DecidableEq, Repr

/-- A store to the link of a node. -/
def Shared.setNext (s : Shared ι ν) (n : ν) (next : Option (MpscNode ν)) : Shared ι ν :=
  { s with queue := { s.queue with next := Function.update s.queue.next (.typed n) next } }

namespace Recycler

/-- Memory before the first allocation. -/
def new (garbage : ν → μ) : Recycler ι ν μ := { shared := .new, data := garbage }

/-- `::new (p) TypedMpscNode<T>(m)`. -/
def construct (s : Recycler ι ν μ) (n : ν) (m : μ) : Recycler ι ν μ :=
  { s with shared := s.shared.setNext n none, data := Function.update s.data n m }

/-- `MpscNodePool::alloc` of thread `t`. -/
def alloc (s : Recycler ι ν μ) (t : Option ι) (m : μ) (fresh : ν) : Recycler ι ν μ × ν :=
  ({ s with pool := (s.pool.take t fresh).1 }.construct (s.pool.take t fresh).2 m,
    (s.pool.take t fresh).2)

/-- `MpscNodePool::free` of thread `t`. -/
def free (s : Recycler ι ν μ) (t : Option ι) (n : ν) (scrap : μ) : Recycler ι ν μ :=
  { s with pool := s.pool.give kMaxFree t n, data := Function.update s.data n scrap }

/-- The messages of the nodes that were exchanged. -/
def sents (data : ν → μ) (es : List (Event ν)) : List (RecycleEvent μ) :=
  (exchanged es).map fun n => .sent (data n)

/-- The node that `pop` has returned. -/
def result (es : List (Event ν)) : Option ν :=
  (returned es).head?.bind fun
    | .typed n => some n
    | .stub => none

def step (s : Recycler ι ν μ) :
    RecycleLabel ι ν μ → Option (Recycler ι ν μ × List (RecycleEvent μ))
  | .alloc i m fresh =>
    if s.holding i = none ∧ s.shared.producers i = none ∧ s.pool.allocated fresh = false then
      let r := s.alloc (some i) m fresh
      some ({ r.1 with holding := Function.update s.holding i (some r.2) }, [])
    else none
  | .push i =>
    (s.holding i).bind fun n => (s.shared.step (.push i n)).map fun r =>
      ({ s with shared := r.1, holding := Function.update s.holding i none }, [])
  | .produce i =>
    (s.shared.step (.produce i)).map fun r => ({ s with shared := r.1 }, sents s.data r.2)
  | .pop =>
    if s.popped = none then
      (s.shared.step .pop).map fun r => ({ s with shared := r.1 }, [])
    else none
  | .consume =>
    (s.shared.step .consume).map fun r =>
      ({ s with shared := r.1, popped := (result r.2).or s.popped }, [])
  | .free scrap =>
    s.popped.map fun n => ({ s.free none n scrap with popped := none }, [.received (s.data n)])
  | .allocOther t m fresh =>
    if s.pool.allocated fresh = false then
      let r := s.alloc t m fresh
      some ({ r.1 with away := r.2 :: s.away }, [])
    else none
  | .linkOther n next =>
    if n ∈ s.away then some ({ s with shared := s.shared.setNext n next }, []) else none
  | .freeOther t n scrap =>
    if n ∈ s.away then some ({ s.free t n scrap with away := s.away.erase n }, []) else none

end Recycler

/-- The nodes whose link an operation of `push` writes. -/
def Push.touches : Push ν → List (MpscNode ν)
  | .reset node => [node]
  | .exchange _ => []
  | .link _ prev => [prev]

/-- The nodes whose link an operation of `pop` reads or writes. -/
def Pop.touches : Pop ν → List (MpscNode ν)
  | .loadNext h => [h]
  | .reload h => [h]
  | .recheck h => [h]
  | .restub _ place => place.touches
  | _ => []

/-- The next operation of some thread in the queue reads or writes the link of the node. -/
def Shared.Touches (s : Shared ι ν) (n : MpscNode ν) : Prop :=
  (∃ i p, s.producers i = some p ∧ n ∈ p.touches) ∨ ∃ c, s.consumer = some c ∧ n ∈ c.touches

/-! ## Stores to other nodes -/

omit [DecidableEq ι] in
/-- A store to a node that the queue does not have. -/
theorem Inv.setNext {s : Shared ι ν} {l : List (MpscNode ν)} (h : Inv s l) {n : ν}
    (hn : n ∉ s.busy) (next : Option (MpscNode ν)) : Inv (s.setNext n next) l := by
  obtain ⟨hl, hown⟩ := h.free n hn
  have hfirst := h.pushes.chain.first_mem
  have hhead : s.queue.head ≠ .typed n := fun heq => hl (heq ▸ hfirst)
  refine ⟨⟨h.pushes.chain.write hl next, h.pushes.reset, fun x m hx => ?_, h.pushes.distinct⟩,
    h.typed, h.free, fun c hc => ?_⟩
  · obtain ⟨hm, hnext⟩ := h.pushes.exchange x m hx
    have hne : m ≠ .typed n := by
      rintro rfl
      cases x with
      | some i => exact hown i _ hx rfl
      | none =>
        obtain ⟨c, hc, hpush⟩ := Option.bind_eq_some_iff.mp hx
        have hplace := h.place c hc
        cases c with
        | restub a place =>
          obtain rfl : place = .exchange (.typed n) := Option.some.inj hpush
          exact absurd hplace.2.2 (by simp [Push.node])
        | _ => simp [Pop.pushes] at hpush
    exact ⟨hm, by rw [← hnext]; exact Function.update_of_ne hne _ _⟩
  · have hplace := h.place c hc
    cases c with
    | advance b =>
      have hstub : (MpscNode.stub : MpscNode ν) ≠ .typed n := by simp
      exact ⟨hplace.1, (Function.update_of_ne hstub next s.queue.next).trans hplace.2⟩
    | take a b =>
      have ha : a ≠ .typed n := hplace.1 ▸ hhead
      exact ⟨hplace.1, hplace.2.1, by simpa [Shared.setNext, ha] using hplace.2.2⟩
    | _ => exact hplace

omit [DecidableEq ι] in
/-- The nodes of the queue are its own. -/
theorem Inv.busy_of_mem {s : Shared ι ν} {l : List (MpscNode ν)} (h : Inv s l) {n : ν}
    (hn : .typed n ∈ l) : n ∈ s.busy := by
  by_contra hbusy
  exact (h.free n hbusy).1 hn

omit [DecidableEq ι] in
/-- No operation touches a node that the queue does not have. -/
theorem Inv.touches {s : Shared ι ν} {l : List (MpscNode ν)} (h : Inv s l) {n : ν}
    (hn : s.Touches (.typed n)) : n ∈ s.busy := by
  have hlink : ∀ x a prev, s.pushing x = some (.link a prev) → prev ∈ l := fun x a prev hx =>
    (h.pushes.chain.missing prev a ⟨x, hx⟩).1.mem.1
  rcases hn with ⟨i, p, hi, hp⟩ | ⟨c, hc, hp⟩
  · cases p with
    | reset a =>
      obtain rfl := List.mem_singleton.mp hp
      by_contra hbusy
      exact (h.free n hbusy).2 i _ hi rfl
    | exchange a => simp [Push.touches] at hp
    | link a prev =>
      obtain rfl := List.mem_singleton.mp hp
      exact h.busy_of_mem (hlink (some i) a _ hi)
  · have hplace := h.place c hc
    have hfirst := h.pushes.chain.first_mem
    cases c with
    | loadNext a =>
      obtain rfl := List.mem_singleton.mp hp
      exact h.busy_of_mem (hplace ▸ hfirst)
    | reload a =>
      obtain rfl := List.mem_singleton.mp hp
      exact h.busy_of_mem (hplace.1 ▸ hfirst)
    | recheck a =>
      obtain rfl := List.mem_singleton.mp hp
      exact h.busy_of_mem (hplace.1 ▸ hfirst)
    | restub a p =>
      have hstub : p.node = .stub := hplace.2.2
      cases p with
      | reset b =>
        obtain rfl := List.mem_singleton.mp hp
        simp [Push.node] at hstub
      | exchange b => simp [Pop.touches, Push.touches] at hp
      | link b prev =>
        obtain rfl := List.mem_singleton.mp hp
        exact h.busy_of_mem (hlink none b _ (by simp [Shared.pushing, hc, Pop.pushes]))
    | _ => simp [Pop.touches] at hp

/-! ## The owners of the nodes -/

/-- Who has a node that is not free. -/
inductive Owner (ι : Type) where
  /-- It was handed to `push` and has not come back from `pop`. -/
  | queue
  | producer (i : ι)
  | consumer
  | other

/-- The messages of nodes. -/
def messages (data : ν → μ) (l : List (MpscNode ν)) : List μ :=
  l.filterMap fun
    | .typed n => some (data n)
    | .stub => none

def RecycleEvent.sentMessage : RecycleEvent μ → Option μ
  | .sent m => some m
  | .received _ => none

def RecycleEvent.receivedMessage : RecycleEvent μ → Option μ
  | .sent _ => none
  | .received m => some m

/-- Every node has one owner or is free, and the messages that were sent are those received, the
    one in the hands of the consumer and those of the queue. -/
structure Recycled (s : Recycler ι ν μ) (tr : List (RecycleEvent μ)) (l : List (MpscNode ν))
    (free : Option ι → List ν) (owner : ν → Option (Owner ι)) : Prop where
  inv : Inv s.shared l
  sound : FreeLists.Sound kMaxFree s.pool free
  used : ∀ n, FreeLists.InUse s.pool free n ↔ (owner n).isSome = true
  busy : ∀ n, n ∈ s.shared.busy ↔ owner n = some .queue
  holding : ∀ i n, s.holding i = some n ↔ owner n = some (.producer i)
  popped : ∀ n, s.popped = some n ↔ owner n = some .consumer
  away : ∀ n, n ∈ s.away ↔ owner n = some .other
  nodup : s.away.Nodup
  idle : ∀ i, (s.holding i).isSome = true → s.shared.producers i = none
  consuming : s.shared.consumer.isSome = true → s.popped = none
  history : tr.filterMap RecycleEvent.sentMessage =
    tr.filterMap RecycleEvent.receivedMessage ++
      (s.popped.toList.map s.data ++ messages s.data (kept l))

omit [DecidableEq ι] in
theorem recycled_new (garbage : ν → μ) :
    Recycled (.new garbage : Recycler ι ν μ) [] [.stub] (fun _ => []) fun _ => none where
  inv := inv_new
  sound := FreeLists.sound_new
  used n := by simp [Recycler.new, FreeLists.InUse]
  busy n := by simp [Recycler.new, Shared.new]
  holding i n := by simp [Recycler.new]
  popped n := by simp [Recycler.new]
  away n := by simp [Recycler.new]
  nodup := List.nodup_nil
  idle i h := by simp [Recycler.new] at h
  consuming h := by simp [Recycler.new, Shared.new] at h
  history := by simp [Recycler.new, messages, kept]

section Steps

variable {s s' : Recycler ι ν μ} {tr es : List (RecycleEvent μ)} {l : List (MpscNode ν)}
  {lists : Option ι → List ν} {owner : ν → Option (Owner ι)}

omit [DecidableEq ι] in
theorem Recycled.owner_of_mem (h : Recycled s tr l lists owner) {n : ν} (hn : .typed n ∈ l) :
    owner n = some .queue := (h.busy n).mp (h.inv.busy_of_mem hn)

omit [DecidableEq ι] [DecidableEq ν] in
/-- The messages of a list, when the data of another node changes. -/
theorem messages_congr {data data' : ν → μ} {l : List (MpscNode ν)}
    (h : ∀ n, .typed n ∈ l → data' n = data n) : messages data' l = messages data l := by
  refine List.filterMap_congr fun a ha => ?_
  cases a with
  | stub => rfl
  | typed n => exact congrArg some (h n ha)

omit [DecidableEq ι] in
theorem Recycled.messages_update (h : Recycled s tr l lists owner) {n : ν}
    (hn : owner n ≠ some .queue) (m : μ) :
    messages (Function.update s.data n m) (kept l) = messages s.data (kept l) := by
  refine messages_congr fun k hk => Function.update_of_ne ?_ _ _
  rintro rfl
  exact hn (h.owner_of_mem (List.mem_filter.mp hk).1)

omit [DecidableEq ι] in
/-- A write to the data of a node that neither the queue nor the consumer has. -/
theorem Recycled.history_update (h : Recycled s tr l lists owner) {n : ν}
    (hqueue : owner n ≠ some .queue) (hconsumer : owner n ≠ some .consumer) (m : μ) :
    tr.filterMap RecycleEvent.sentMessage =
      tr.filterMap RecycleEvent.receivedMessage ++
        (s.popped.toList.map (Function.update s.data n m) ++
          messages (Function.update s.data n m) (kept l)) := by
  have hpopped : s.popped.toList.map (Function.update s.data n m) = s.popped.toList.map s.data := by
    cases hp : s.popped with
    | none => rfl
    | some k =>
      have hk : k ≠ n := by
        rintro rfl
        exact hconsumer ((h.popped k).mp hp)
      simp [hk]
  rw [hpopped, h.messages_update hqueue, h.history]

omit [DecidableEq ι] in
/-- A change of one owner is not seen elsewhere. -/
theorem update_owner_iff {n k : ν} {o : Option (Owner ι)} {x : Owner ι} (hn : owner n ≠ some x)
    (ho : o ≠ some x) : Function.update owner n o k = some x ↔ owner k = some x := by
  by_cases heq : k = n
  · subst heq
    simp [hn, ho]
  · simp [heq]

/-- A node that was free comes from the lists or the heap. -/
theorem Recycled.take (h : Recycled s tr l lists owner) (t : Option ι) {fresh : ν}
    (hfresh : s.pool.allocated fresh = false) :
    owner (s.pool.take t fresh).2 = none ∧
      ∃ lists', FreeLists.Sound kMaxFree (s.pool.take t fresh).1 lists' ∧ ∀ (o : Owner ι) k,
        FreeLists.InUse (s.pool.take t fresh).1 lists' k ↔
          (Function.update owner (s.pool.take t fresh).2 (some o) k).isSome = true := by
  obtain ⟨lists', hsound, hnot, huse⟩ := FreeLists.take_sound h.sound t hfresh
  refine ⟨by simpa [h.used] using hnot, lists', hsound, fun o k => ?_⟩
  rw [huse, h.used]
  by_cases heq : k = (s.pool.take t fresh).2 <;> simp [heq]

/-- A node goes back to the lists or the heap. -/
theorem Recycled.give (h : Recycled s tr l lists owner) (t : Option ι) {n : ν} {o : Owner ι}
    (hn : owner n = some o) :
    ∃ lists', FreeLists.Sound kMaxFree (s.pool.give kMaxFree t n) lists' ∧ ∀ k,
      FreeLists.InUse (s.pool.give kMaxFree t n) lists' k ↔
        (Function.update owner n none k).isSome = true := by
  have hused : FreeLists.InUse s.pool lists n := (h.used n).mpr (by rw [hn]; rfl)
  obtain ⟨lists', hsound, huse⟩ := FreeLists.give_sound h.sound t hused
  refine ⟨lists', hsound, fun k => ?_⟩
  rw [huse, h.used]
  by_cases heq : k = n <;> simp [heq]

theorem Recycled.alloc (h : Recycled s tr l lists owner) {i : ι} {m : μ} {fresh : ν}
    (hholding : s.holding i = none) (hi : s.shared.producers i = none)
    (hfresh : s.pool.allocated fresh = false) :
    ∃ lists' owner', Recycled { (s.alloc (some i) m fresh).1 with
      holding := Function.update s.holding i (some (s.alloc (some i) m fresh).2) } tr l
        lists' owner' := by
  obtain ⟨hn, lists', hsound, huse⟩ := h.take (some i) hfresh
  refine ⟨lists', _, { h with
    inv := h.inv.setNext (by simp [h.busy, hn]) none
    sound := hsound
    used := huse (.producer i)
    busy := fun k => ?_
    holding := fun j k => ?_
    popped := fun k => ?_
    away := fun k => ?_
    idle := fun j hj => ?_
    history := ?_ }⟩
  · rw [update_owner_iff (by simp [hn]) (by simp)]
    exact h.busy k
  · by_cases hj : j = i
    · subst hj
      by_cases hk : k = (s.pool.take (some j) fresh).2
      · subst hk
        simp [Recycler.alloc]
      · have hnot : owner k ≠ some (.producer j) := fun ho => by
          simpa [hholding] using (h.holding j k).mpr ho
        simp [Recycler.alloc, Ne.symm hk, hk, hnot]
    · rw [update_owner_iff (by simp [hn]) (by simpa using Ne.symm hj)]
      simpa [hj] using h.holding j k
  · rw [update_owner_iff (by simp [hn]) (by simp)]
    exact h.popped k
  · rw [update_owner_iff (by simp [hn]) (by simp)]
    exact h.away k
  · by_cases heq : j = i
    · exact heq ▸ hi
    · exact h.idle j (by simpa [heq] using hj)
  · exact h.history_update (by simp [hn]) (by simp [hn]) m

theorem Recycled.allocOther (h : Recycled s tr l lists owner) {t : Option ι} {m : μ} {fresh : ν}
    (hfresh : s.pool.allocated fresh = false) :
    ∃ lists' owner', Recycled { (s.alloc t m fresh).1 with
      away := (s.alloc t m fresh).2 :: s.away } tr l lists' owner' := by
  obtain ⟨hn, lists', hsound, huse⟩ := h.take t hfresh
  refine ⟨lists', _, { h with
    inv := h.inv.setNext (by simp [h.busy, hn]) none
    sound := hsound
    used := huse .other
    busy := fun k => ?_
    holding := fun j k => ?_
    popped := fun k => ?_
    away := fun k => ?_
    nodup := List.nodup_cons.mpr ⟨by simp [Recycler.alloc, h.away, hn], h.nodup⟩
    history := h.history_update (by simp [hn]) (by simp [hn]) m }⟩
  · rw [update_owner_iff (by simp [hn]) (by simp)]
    exact h.busy k
  · rw [update_owner_iff (by simp [hn]) (by simp)]
    exact h.holding j k
  · rw [update_owner_iff (by simp [hn]) (by simp)]
    exact h.popped k
  · by_cases hk : k = (s.pool.take t fresh).2
    · subst hk
      simp [Recycler.alloc]
    · simpa [Recycler.alloc, hk] using h.away k

/-- The consumer moves the message out of the node it has popped, and frees the node. -/
theorem Recycled.free (h : Recycled s tr l lists owner) {n : ν} (hpopped : s.popped = some n)
    (scrap : μ) :
    ∃ lists' owner', Recycled { s.free none n scrap with popped := none }
      (tr ++ [.received (s.data n)]) l lists' owner' := by
  have hn := (h.popped n).mp hpopped
  obtain ⟨lists', hsound, huse⟩ := h.give none hn
  refine ⟨lists', _, { h with
    sound := hsound
    used := huse
    busy := fun k => ?_
    holding := fun j k => ?_
    popped := fun k => ?_
    away := fun k => ?_
    consuming := fun _ => rfl
    history := ?_ }⟩
  · rw [update_owner_iff (by simp [hn]) (by simp)]
    exact h.busy k
  · rw [update_owner_iff (by simp [hn]) (by simp)]
    exact h.holding j k
  · by_cases hk : k = n
    · simp [hk]
    · have hnot : owner k ≠ some .consumer := fun ho =>
        hk (Option.some.inj (((h.popped k).mpr ho).symm.trans hpopped))
      simp [hk, hnot]
  · rw [update_owner_iff (by simp [hn]) (by simp)]
    exact h.away k
  · have hhistory := h.history
    simp only [hpopped, Option.toList_some, List.map_cons, List.map_nil] at hhistory
    simp [hhistory, Recycler.free, h.messages_update (by simp [hn] : owner n ≠ some .queue),
      RecycleEvent.sentMessage, RecycleEvent.receivedMessage]

theorem Recycled.freeOther (h : Recycled s tr l lists owner) {t : Option ι} {n : ν}
    (hmem : n ∈ s.away) (scrap : μ) :
    ∃ lists' owner', Recycled { s.free t n scrap with away := s.away.erase n } tr l
      lists' owner' := by
  have hn := (h.away n).mp hmem
  obtain ⟨lists', hsound, huse⟩ := h.give t hn
  refine ⟨lists', _, { h with
    sound := hsound
    used := huse
    busy := fun k => ?_
    holding := fun j k => ?_
    popped := fun k => ?_
    away := fun k => ?_
    nodup := h.nodup.erase n
    history := h.history_update (by simp [hn]) (by simp [hn]) scrap }⟩
  · rw [update_owner_iff (by simp [hn]) (by simp)]
    exact h.busy k
  · rw [update_owner_iff (by simp [hn]) (by simp)]
    exact h.holding j k
  · rw [update_owner_iff (by simp [hn]) (by simp)]
    exact h.popped k
  · rw [h.nodup.mem_erase_iff]
    by_cases hk : k = n
    · simp [hk]
    · simpa [hk] using h.away k

omit [DecidableEq ι] in
theorem Recycled.linkOther (h : Recycled s tr l lists owner) {n : ν} (hmem : n ∈ s.away)
    (next : Option (MpscNode ν)) :
    Recycled { s with shared := s.shared.setNext n next } tr l lists owner :=
  { h with inv := h.inv.setNext (by simp [h.busy, (h.away n).mp hmem]) next }

omit [DecidableEq ι] in
/-- The queue has room for the node that a producer holds. -/
theorem Recycled.mayPush (h : Recycled s tr l lists owner) {i : ι} {n : ν}
    (hi : s.holding i = some n) : s.shared.producers i = none ∧ n ∉ s.shared.busy :=
  ⟨h.idle i (by simp [hi]), by simp [h.busy, (h.holding i n).mp hi]⟩

theorem Recycled.push (h : Recycled s tr l lists owner) {i : ι} {n : ν}
    (hi : s.holding i = some n) :
    ∃ owner', Recycled { s with
      shared := ({ s.shared with busy := n :: s.shared.busy } : Shared ι ν).setProducer i
        (some (.reset (.typed n)))
      holding := Function.update s.holding i none } tr l lists owner' := by
  obtain ⟨hproducer, hbusy⟩ := h.mayPush hi
  have hn := (h.holding i n).mp hi
  refine ⟨Function.update owner n (some .queue), { h with
    inv := call_inv h.inv hproducer hbusy
    used := fun k => ?_
    busy := fun k => ?_
    holding := fun j k => ?_
    popped := fun k => ?_
    away := fun k => ?_
    idle := fun j hj => ?_ }⟩
  · rw [h.used]
    by_cases hk : k = n
    · simp [hk, hn]
    · simp [hk]
  · by_cases hk : k = n
    · simp [hk, Shared.setProducer]
    · simpa [hk, Shared.setProducer] using h.busy k
  · by_cases hj : j = i
    · subst hj
      by_cases hk : k = n
      · simp [hk]
      · have hnot : owner k ≠ some (.producer j) := fun ho =>
          hk (Option.some.inj (((h.holding j k).mpr ho).symm.trans hi))
        simp [hk, hnot]
    · rw [update_owner_iff (by simpa [hn] using Ne.symm hj) (by simp)]
      simpa [hj] using h.holding j k
  · rw [update_owner_iff (by simp [hn]) (by simp)]
    exact h.popped k
  · rw [update_owner_iff (by simp [hn]) (by simp)]
    exact h.away k
  · have hji : j ≠ i := by
      rintro rfl
      simp at hj
    have hidle := h.idle j (by simpa [hji] using hj)
    simpa [Shared.setProducer, hji] using hidle

omit [DecidableEq ι] [DecidableEq ν] in
@[simp] theorem messages_append (data : ν → μ) (l m : List (MpscNode ν)) :
    messages data (l ++ m) = messages data l ++ messages data m := List.filterMap_append

omit [DecidableEq ν] in
@[simp] theorem messages_typed (data : ν → μ) (ns : List ν) :
    messages data (ns.map .typed) = ns.map data := by
  simp [messages, List.filterMap_map]

omit [DecidableEq ν] in
@[simp] theorem sentMessage_sents (data : ν → μ) (es : List (Event ν)) :
    (Recycler.sents data es).filterMap RecycleEvent.sentMessage = (exchanged es).map data := by
  simp [Recycler.sents, List.filterMap_map, Function.comp_def, RecycleEvent.sentMessage]

omit [DecidableEq ν] in
@[simp] theorem receivedMessage_sents (data : ν → μ) (es : List (Event ν)) :
    (Recycler.sents data es).filterMap RecycleEvent.receivedMessage = [] := by
  simp [Recycler.sents, List.filterMap_map, Function.comp_def, RecycleEvent.receivedMessage]

theorem Recycled.produce (h : Recycled s tr l lists owner) {i : ι} {p : Push ν}
    (hi : s.shared.producers i = some p) :
    Recycled { s with shared := (s.shared.produce i p).1 }
      (tr ++ Recycler.sents s.data (s.shared.produce i p).2) (l ++ p.appends) lists owner := by
  obtain ⟨hinv, -, hkept⟩ := produce_inv h.inv hi
  refine { h with
    inv := hinv
    idle := fun j hj => ?_
    history := ?_ }
  · have hidle := h.idle j hj
    have hji : j ≠ i := by
      rintro rfl
      simp [hi] at hidle
    simpa [Shared.produce, Shared.setProducer, hji] using hidle
  · simp only [List.filterMap_append, sentMessage_sents, receivedMessage_sents, kept_append,
      messages_append, hkept, messages_typed, h.history, List.append_nil, List.append_assoc]

theorem Recycled.pop (h : Recycled s tr l lists owner) (hc : s.shared.consumer = none)
    (hpopped : s.popped = none) :
    Recycled { s with shared := { s.shared with consumer := some .loadHead } } tr l lists owner :=
  { h with
    inv := start_inv h.inv hc
    consuming := fun _ => hpopped }

/-- One operation of the consumer in `pop`. The node that it returns is the consumer's then. -/
theorem Recycled.consume (h : Recycled s tr l lists owner) {c : Pop ν}
    (hc : s.shared.consumer = some c) :
    ∃ l' owner', Recycled { s with
      shared := (s.shared.consume c).1
      popped := (Recycler.result (s.shared.consume c).2).or s.popped } tr l' lists owner' := by
  obtain ⟨l', hinv, -, hret⟩ := consume_inv h.inv hc
  have hnone := h.consuming (by simp [hc])
  have hhistory := h.history
  rw [← hret] at hhistory
  cases hpop : (s.shared.queue.pop c).2 with
  | goes c' =>
    rw [consume_goes hpop] at hinv hhistory ⊢
    exact ⟨l', owner, { h with
      inv := hinv
      consuming := fun _ => hnone
      history := hhistory }⟩
  | returns result =>
    rw [consume_returns hpop] at hinv hhistory hret ⊢
    cases result with
    | none =>
      exact ⟨l', owner, { h with
        inv := hinv
        consuming := fun hsome => by simp [Shared.setConsumer] at hsome
        history := hhistory }⟩
    | some a =>
      have ha : a ∈ kept l := by
        rw [← hret]
        exact List.mem_append_left _ (by simp [returned])
      cases a with
      | stub => simp [kept] at ha
      | typed n =>
        have hn := h.owner_of_mem (List.mem_filter.mp ha).1
        refine ⟨l', Function.update owner n (some .consumer), { h with
          inv := hinv
          used := fun k => ?_
          busy := fun k => ?_
          holding := fun j k => ?_
          popped := fun k => ?_
          away := fun k => ?_
          consuming := fun hsome => by simp [Shared.setConsumer] at hsome
          history := ?_ }⟩
        · rw [h.used]
          by_cases hk : k = n
          · simp [hk, hn]
          · simp [hk]
        · by_cases hk : k = n
          · simp [hk, Shared.setConsumer, release]
          · simpa [hk, Shared.setConsumer, release] using h.busy k
        · rw [update_owner_iff (by simp [hn]) (by simp)]
          exact h.holding j k
        · by_cases hk : k = n
          · simp [hk, Recycler.result, returned]
          · have hnot : owner k ≠ some .consumer := fun ho => by
              simpa [hnone] using (h.popped k).mpr ho
            simp [hk, Ne.symm hk, hnot, Recycler.result, returned]
        · rw [update_owner_iff (by simp [hn]) (by simp)]
          exact h.away k
        · simpa [hnone, Recycler.result, returned, messages] using hhistory

end Steps

/-! ## Runs -/

theorem Recycled.step {s s' : Recycler ι ν μ} {tr es : List (RecycleEvent μ)}
    {lb : RecycleLabel ι ν μ} (h : ∃ l lists owner, Recycled s tr l lists owner)
    (hs : s.step lb = some (s', es)) : ∃ l lists owner, Recycled s' (tr ++ es) l lists owner := by
  obtain ⟨l, lists, owner, h⟩ := h
  cases lb with
  | alloc i m fresh =>
    obtain ⟨⟨hholding, hi, hfresh⟩, heq⟩ := Option.ite_none_right_eq_some.mp hs
    obtain ⟨rfl, rfl⟩ := Prod.mk.inj (Option.some.inj heq)
    rw [List.append_nil]
    exact ⟨l, h.alloc hholding hi hfresh⟩
  | push i =>
    obtain ⟨n, hi, hmap⟩ := Option.bind_eq_some_iff.mp hs
    obtain ⟨r, hr, heq⟩ := Option.map_eq_some_iff.mp hmap
    obtain ⟨rfl, rfl⟩ := Prod.mk.inj heq
    obtain ⟨-, hr⟩ := Option.ite_none_right_eq_some.mp hr
    obtain rfl := Option.some.inj hr
    rw [List.append_nil]
    exact ⟨l, lists, h.push hi⟩
  | produce i =>
    obtain ⟨r, hr, heq⟩ := Option.map_eq_some_iff.mp hs
    obtain ⟨rfl, rfl⟩ := Prod.mk.inj heq
    obtain ⟨p, hi, rfl⟩ := Option.map_eq_some_iff.mp hr
    exact ⟨_, lists, owner, h.produce hi⟩
  | pop =>
    obtain ⟨hpopped, hmap⟩ := Option.ite_none_right_eq_some.mp hs
    obtain ⟨r, hr, heq⟩ := Option.map_eq_some_iff.mp hmap
    obtain ⟨rfl, rfl⟩ := Prod.mk.inj heq
    obtain ⟨hc, hr⟩ := Option.ite_none_right_eq_some.mp hr
    obtain rfl := Option.some.inj hr
    rw [List.append_nil]
    exact ⟨l, lists, owner, h.pop hc hpopped⟩
  | consume =>
    obtain ⟨r, hr, heq⟩ := Option.map_eq_some_iff.mp hs
    obtain ⟨rfl, rfl⟩ := Prod.mk.inj heq
    obtain ⟨c, hc, rfl⟩ := Option.map_eq_some_iff.mp hr
    obtain ⟨l', owner', h'⟩ := h.consume hc
    rw [List.append_nil]
    exact ⟨l', lists, owner', h'⟩
  | free scrap =>
    obtain ⟨n, hpopped, heq⟩ := Option.map_eq_some_iff.mp hs
    obtain ⟨rfl, rfl⟩ := Prod.mk.inj heq
    exact ⟨l, h.free hpopped scrap⟩
  | allocOther t m fresh =>
    obtain ⟨hfresh, heq⟩ := Option.ite_none_right_eq_some.mp hs
    obtain ⟨rfl, rfl⟩ := Prod.mk.inj (Option.some.inj heq)
    rw [List.append_nil]
    exact ⟨l, h.allocOther hfresh⟩
  | linkOther n next =>
    obtain ⟨hmem, heq⟩ := Option.ite_none_right_eq_some.mp hs
    obtain ⟨rfl, rfl⟩ := Prod.mk.inj (Option.some.inj heq)
    rw [List.append_nil]
    exact ⟨l, lists, owner, h.linkOther hmem next⟩
  | freeOther t n scrap =>
    obtain ⟨hmem, heq⟩ := Option.ite_none_right_eq_some.mp hs
    obtain ⟨rfl, rfl⟩ := Prod.mk.inj (Option.some.inj heq)
    rw [List.append_nil]
    exact ⟨l, h.freeOther hmem scrap⟩

/-- What the users of the nodes and of the queue rely on. -/
structure NodeLaw (s : Recycler ι ν μ) (tr : List (RecycleEvent μ)) : Prop where
  /-- The lists are linked, no longer than `kMaxFree` and share nothing, and every other node of
      the heap has one owner. -/
  owned : ∃ (lists : Option ι → List ν) (owner : ν → Option (Owner ι)),
    FreeLists.Sound kMaxFree s.pool lists ∧
    (∀ n, FreeLists.InUse s.pool lists n ↔ (owner n).isSome = true) ∧
    (∀ n, n ∈ s.shared.busy ↔ owner n = some .queue) ∧
    (∀ i n, s.holding i = some n ↔ owner n = some (.producer i)) ∧
    (∀ n, s.popped = some n ↔ owner n = some .consumer) ∧
    ∀ n, n ∈ s.away ↔ owner n = some .other
  /-- No operation reads or writes the link of a node that is not in the queue. -/
  touches : ∀ n, s.shared.Touches (.typed n) → n ∈ s.shared.busy
  /-- A node that was made can be pushed. -/
  push : ∀ i, (s.holding i).isSome = true → (s.step (.push i)).isSome = true
  /-- What was sent and not received is in the node that the consumer has, or in the queue. -/
  order : ∃ nodes : List ν, nodes.Nodup ∧ (∀ n ∈ nodes, n ∈ s.shared.busy) ∧
    tr.filterMap RecycleEvent.sentMessage =
      tr.filterMap RecycleEvent.receivedMessage ++ (s.popped.toList ++ nodes).map s.data

omit [DecidableEq ι] in
theorem kept_eq_map (l : List (MpscNode ν)) : ∃ nodes : List ν, kept l = nodes.map .typed := by
  have hrange : kept l ∈ Set.range (List.map MpscNode.typed) := by
    rw [Set.range_list_map]
    intro a ha
    cases a with
    | stub => simp [kept] at ha
    | typed n => exact ⟨n, rfl⟩
  obtain ⟨nodes, hnodes⟩ := hrange
  exact ⟨nodes, hnodes.symm⟩

omit [DecidableEq ι] in
theorem Recycled.order {s : Recycler ι ν μ} {tr : List (RecycleEvent μ)} {l : List (MpscNode ν)}
    {lists : Option ι → List ν} {owner : ν → Option (Owner ι)}
    (h : Recycled s tr l lists owner) :
    ∃ nodes : List ν, nodes.Nodup ∧ (∀ n ∈ nodes, n ∈ s.shared.busy) ∧
      tr.filterMap RecycleEvent.sentMessage =
        tr.filterMap RecycleEvent.receivedMessage ++ (s.popped.toList ++ nodes).map s.data := by
  obtain ⟨nodes, hnodes⟩ := kept_eq_map l
  have hnodup : (kept l).Nodup := h.inv.pushes.chain.nodup.filter _
  rw [hnodes] at hnodup
  refine ⟨nodes, hnodup.of_map _, fun n hn => h.inv.busy_of_mem ?_, ?_⟩
  · have hmem : .typed n ∈ kept l := hnodes ▸ List.mem_map_of_mem hn
    exact (List.mem_filter.mp hmem).1
  · rw [h.history, hnodes, messages_typed, List.map_append]

/-- Nodes come back under the same address and are shared with other queues, and still every
    operation of the queue keeps to its own nodes, and no message is lost, repeated or overtaken. -/
theorem recycled_nodes {garbage : ν → μ} {ls : List (RecycleLabel ι ν μ)} {s : Recycler ι ν μ}
    {tr : List (RecycleEvent μ)}
    (hrun : Machine.run Recycler.step (.new garbage) ls = some (s, tr)) : NodeLaw s tr := by
  obtain ⟨l, lists, owner, h⟩ :=
    Machine.run_induction (fun s tr => ∃ l lists owner, Recycled s tr l lists owner)
      (fun _ _ _ _ _ h hs => Recycled.step h hs) [] ⟨_, _, _, recycled_new garbage⟩ hrun
  rw [List.nil_append] at h
  refine ⟨⟨lists, owner, h.sound, h.used, h.busy, h.holding, h.popped, h.away⟩,
    fun n hn => h.inv.touches hn, fun i hi => ?_, h.order⟩
  obtain ⟨n, hn⟩ := Option.isSome_iff_exists.mp hi
  simp [Recycler.step, hn, Shared.step, h.mayPush hn]

/-- Producer `true` sends 5, the consumer frees the node, and another queue of the consumer's
    thread gets it while producer `false` is inside of `push`. -/
theorem recycled_nodes_reused :
    ∃ s : Recycler Bool Nat Nat, s.away = [0] ∧ NodeLaw s [.sent 5, .received 5, .sent 6] := by
  have hrun : ∃ s : Recycler Bool Nat Nat, Machine.run Recycler.step (.new fun _ => 0)
      ([.alloc true 5 0, .push true, .produce true, .produce true, .produce true, .pop] ++
        List.replicate 10 .consume ++
        [.free 0, .alloc false 6 1, .push false, .produce false, .produce false,
          .allocOther none 7 2, .linkOther 0 (some .stub), .produce false]) =
      some (s, [.sent 5, .received 5, .sent 6]) ∧ s.away = [0] := ⟨_, rfl, rfl⟩
  obtain ⟨s, hrun, haway⟩ := hrun
  exact ⟨s, haway, recycled_nodes hrun⟩

end RocketRpc.Mpsc
