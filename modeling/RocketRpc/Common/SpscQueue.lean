import RocketRpc.Lib.Machine
import RocketRpc.Lib.PowerOfTwo
import Mathlib.Algebra.Group.Nat.Defs
import Mathlib.Algebra.Group.Int.Defs

/-
  The queue between a thread that logs and the format thread: `SpscBoundedQueue` of
  `rocket/common/log`.

  Words of 64 bits are numbers below 2^64, and the buffer is a function of the index, which
  `m_mask` keeps below the capacity. The sequence number of a cell says whose turn it is: `Held`
  is what the two cursors and the sequence numbers say about the entries that were published and
  dequeued, for positions that wrap around as often as they like. `tryClaim` compares two words
  as signed numbers, so on a full queue it goes wrong where the last lap crosses 2^63; and
  `tryDequeue` subtracts them, which overflows on an empty queue right below 2^63. `Apart` says
  that a step is not one of these. Each operation then does what `Held` says of it
  (`tryClaim_eq` and the others).
-/

namespace RocketRpc.Spsc

open Machine PowerOfTwo

/-- `NextPow2(v)`. -/
def nextPow2 (v : Nat) : Nat :=
  if v < 2 then 2
  else
    let v := v - 1
    let v := v ||| v >>> 1
    let v := v ||| v >>> 2
    let v := v ||| v >>> 4
    let v := v ||| v >>> 8
    let v := v ||| v >>> 16
    let v := v ||| v >>> 32
    (v + 1) % 2 ^ 64

/-- `static_cast<std::intptr_t>(x)`. -/
def intptr (x : Nat) : Int := if x < 2 ^ 63 then x else (x : Int) - 2 ^ 64

/-- The difference of two `intptr_t`; nothing where it is not one. -/
def intptrSub (a b : Int) : Option Int :=
  if -2 ^ 63 ≤ a - b ∧ a - b < 2 ^ 63 then some (a - b) else none

structure Cell (α : Type) where
  sequence : Nat
  storage : α

structure SpscBoundedQueue (α : Type) where
  mask : Nat
  capacity : Nat
  buffer : Nat → Cell α
  /-- Of the producer. -/
  pos : Nat
  /-- Of the consumer. -/
  dq : Nat

variable {α : Type}

namespace SpscBoundedQueue

/-- The constructor; `blank` is what `T` is constructed to. -/
def new (blank : α) (cap : Nat) : SpscBoundedQueue α :=
  let n := nextPow2 (max cap 2)
  { capacity := n, mask := n - 1, buffer := fun i => ⟨i, blank⟩, pos := 0, dq := 0 }

def setSequence (q : SpscBoundedQueue α) (i sequence : Nat) : SpscBoundedQueue α :=
  { q with buffer := Function.update q.buffer i { q.buffer i with sequence } }

def setStorage (q : SpscBoundedQueue α) (i : Nat) (storage : α) : SpscBoundedQueue α :=
  { q with buffer := Function.update q.buffer i { q.buffer i with storage } }

section Cells

variable (q : SpscBoundedQueue α) (i : Nat)

@[simp] theorem setSequence_mask (n : Nat) : (q.setSequence i n).mask = q.mask := rfl

@[simp] theorem setSequence_capacity (n : Nat) : (q.setSequence i n).capacity = q.capacity := rfl

@[simp] theorem setSequence_pos (n : Nat) : (q.setSequence i n).pos = q.pos := rfl

@[simp] theorem setSequence_dq (n : Nat) : (q.setSequence i n).dq = q.dq := rfl

@[simp] theorem setStorage_mask (x : α) : (q.setStorage i x).mask = q.mask := rfl

@[simp] theorem setStorage_capacity (x : α) : (q.setStorage i x).capacity = q.capacity := rfl

@[simp] theorem setStorage_pos (x : α) : (q.setStorage i x).pos = q.pos := rfl

@[simp] theorem setStorage_dq (x : α) : (q.setStorage i x).dq = q.dq := rfl

/-- A store to a sequence number is seen in its cell only, and leaves the storages. -/
theorem setSequence_sequence (n j : Nat) :
    ((q.setSequence i n).buffer j).sequence = if j = i then n else (q.buffer j).sequence := by
  by_cases h : j = i
  · simp [setSequence, h]
  · simp [setSequence, h]

@[simp] theorem setSequence_storage (n j : Nat) :
    ((q.setSequence i n).buffer j).storage = (q.buffer j).storage := by
  by_cases h : j = i
  · simp [setSequence, h]
  · simp [setSequence, h]

/-- A store to a storage is seen in its cell only, and leaves the sequence numbers. -/
theorem setStorage_storage (x : α) (j : Nat) :
    ((q.setStorage i x).buffer j).storage = if j = i then x else (q.buffer j).storage := by
  by_cases h : j = i
  · simp [setStorage, h]
  · simp [setStorage, h]

@[simp] theorem setStorage_sequence (x : α) (j : Nat) :
    ((q.setStorage i x).buffer j).sequence = (q.buffer j).sequence := by
  by_cases h : j = i
  · simp [setStorage, h]
  · simp [setStorage, h]

end Cells

/-- `tryClaim()`: the index of the cell whose storage it returns. -/
def tryClaim (q : SpscBoundedQueue α) : SpscBoundedQueue α × Option Nat :=
  let i := q.pos &&& q.mask
  if intptr (q.buffer i).sequence < intptr q.pos then (q, none)
  else ({ q with pos := (q.pos + 1) % 2 ^ 64 }, some i)

def publish (q : SpscBoundedQueue α) : SpscBoundedQueue α :=
  let pos := (q.pos + (2 ^ 64 - 1)) % 2 ^ 64
  q.setSequence (pos &&& q.mask) ((pos + 1) % 2 ^ 64)

/-- The test of `tryDequeue`: whether there is an entry; nothing where the subtraction
    overflows. -/
def ready (q : SpscBoundedQueue α) : Option Bool :=
  (intptrSub (intptr (q.buffer (q.dq &&& q.mask)).sequence)
    (intptr ((q.dq + 1) % 2 ^ 64))).map fun diff => decide (0 ≤ diff)

/-- `out = std::move(c.storage)` of `tryDequeue`; `moved` is what a move leaves behind. -/
def take (moved : α → α) (q : SpscBoundedQueue α) : SpscBoundedQueue α × α :=
  let i := q.dq &&& q.mask
  (q.setStorage i (moved (q.buffer i).storage), (q.buffer i).storage)

/-- The rest of `tryDequeue`. -/
def release (q : SpscBoundedQueue α) : SpscBoundedQueue α :=
  { q.setSequence (q.dq &&& q.mask) ((q.dq + q.capacity) % 2 ^ 64) with
    dq := (q.dq + 1) % 2 ^ 64 }

def empty (q : SpscBoundedQueue α) : Bool :=
  decide ((q.buffer (q.dq &&& q.mask)).sequence ≠ (q.dq + 1) % 2 ^ 64)

end SpscBoundedQueue

/-! ## One producer and one consumer -/

/-- Where the producer is between `tryClaim` and `publish`. -/
inductive Producer (α : Type) where
  | idle
  /-- It has got the storage of cell `i`. -/
  | claimed (i : Nat)
  /-- It has filled it. -/
  | filled (i : Nat) (entry : α)

/-- Where the consumer is in `tryDequeue`. -/
inductive Consumer (α : Type) where
  | idle
  /-- The test found an entry. -/
  | ready
  /-- The entry was moved out. -/
  | taken (entry : α)
  /-- The subtraction overflowed: anything may follow. -/
  | undefined

structure Channel (α : Type) where
  queue : SpscBoundedQueue α
  producer : Producer α
  consumer : Consumer α

inductive Label (α : Type) where
  | tryClaim
  | fill (entry : α)
  | publish
  /-- `tryDequeue` up to its test. -/
  | tryDequeue
  | take
  | release
  | empty

inductive Event (α : Type) where
  /-- `tryClaim` returns the storage of cell `i`. -/
  | claimed (i : Nat)
  /-- `tryClaim` returns `nullptr`. -/
  | refused
  /-- Cell `i` is published, whose storage was filled with `entry`. -/
  | published (i : Nat) (entry : α)
  /-- `tryDequeue` returns `true` with this entry. -/
  | dequeued (entry : α)
  /-- `tryDequeue` returns `false`. -/
  | missed
  | isEmpty (result : Bool)
  | overflow
  deriving DecidableEq, Repr

namespace Channel

def new (blank : α) (cap : Nat) : Channel α := ⟨.new blank cap, .idle, .idle⟩

/-- A step of the producer or the consumer: at most one access to a sequence number. -/
def step (moved : α → α) (m : Channel α) : Label α → Option (Channel α × List (Event α))
  | .tryClaim =>
    match m.producer with
    | .idle =>
      match m.queue.tryClaim with
      | (queue, some i) => some ({ m with queue, producer := .claimed i }, [.claimed i])
      | (_, none) => some (m, [.refused])
    | _ => none
  | .fill entry =>
    match m.producer with
    | .claimed i | .filled i _ =>
      some ({ m with queue := m.queue.setStorage i entry, producer := .filled i entry }, [])
    | .idle => none
  | .publish =>
    match m.producer with
    | .filled i entry =>
      some ({ m with queue := m.queue.publish, producer := .idle }, [.published i entry])
    | _ => none
  | .tryDequeue =>
    match m.consumer with
    | .idle =>
      match m.queue.ready with
      | some true => some ({ m with consumer := .ready }, [])
      | some false => some (m, [.missed])
      | none => some ({ m with consumer := .undefined }, [.overflow])
    | _ => none
  | .take =>
    match m.consumer with
    | .ready =>
      some ({ m with queue := (m.queue.take moved).1, consumer := .taken (m.queue.take moved).2 },
        [])
    | _ => none
  | .release =>
    match m.consumer with
    | .taken entry =>
      some ({ m with queue := m.queue.release, consumer := .idle }, [.dequeued entry])
    | _ => none
  | .empty =>
    match m.consumer with
    | .idle => some (m, [.isEmpty m.queue.empty])
    | _ => none

end Channel

def Event.publishes : Event α → Option (Nat × α)
  | .published i entry => some (i, entry)
  | _ => none

def Event.dequeues : Event α → Option α
  | .dequeued entry => some entry
  | _ => none

/-- The cells and entries published so far. -/
def published (tr : List (Event α)) : List (Nat × α) := tr.filterMap Event.publishes

def dequeued (tr : List (Event α)) : List α := tr.filterMap Event.dequeues

/-- What an event says, given the entries published and dequeued before it. -/
def Event.Lawful (capacity : Nat) (pub : List (Nat × α)) (deq : List α) : Event α → Prop
  | .claimed i => pub.length ≠ deq.length + capacity ∧ i ∉ (pub.drop deq.length).map Prod.fst
  | .refused => pub.length = deq.length + capacity
  | .isEmpty result => result = true ↔ pub.length = deq.length
  | .overflow => False
  | _ => True

/-- A bounded queue of one producer and one consumer that loses nothing. -/
structure Lossless (request : Nat) (m : Channel α) (tr : List (Event α)) : Prop where
  /-- The capacity is the least power of two that is at least the requested one. -/
  capacity : IsLeast {n | n.isPowerOfTwo ∧ max 2 request ≤ n} m.queue.capacity
  fifo : dequeued tr <+: (published tr).map Prod.snd
  lawful : EachAfter
    (fun tr e => e.Lawful m.queue.capacity (published tr) (dequeued tr)) tr

/-! ## The condition -/

/-- A step that is not a claim on a full queue whose last lap crosses 2^63, nor a try on an empty
    queue right below 2^63. -/
def Apart (m : Channel α) : Label α → Prop
  | .tryClaim => m.queue.pos = (m.queue.dq + m.queue.capacity) % 2 ^ 64 →
      m.queue.pos < 2 ^ 63 ∨ 2 ^ 63 + m.queue.capacity - 1 ≤ m.queue.pos
  | .tryDequeue => m.queue.empty = true → m.queue.dq ≠ 2 ^ 63 - 1
  | _ => True

instance (m : Channel α) (l : Label α) : Decidable (Apart m l) := by
  unfold Apart
  split <;> infer_instance

/-! ## Words -/

theorem intptr_cases (x : Nat) :
    x < 2 ^ 63 ∧ intptr x = x ∨ 2 ^ 63 ≤ x ∧ intptr x = (x : Int) - 2 ^ 64 := by
  unfold intptr
  split
  · exact Or.inl ⟨‹_›, rfl⟩
  · exact Or.inr ⟨Nat.not_lt.mp ‹_›, rfl⟩

theorem intptrSub_self {a : Int} : intptrSub a a = some 0 := by
  unfold intptrSub
  rw [Int.sub_self, if_pos (by decide)]

/-- One word and the next one. -/
theorem intptrSub_next {x : Nat} (h : x % 2 ^ 64 ≠ 2 ^ 63 - 1) :
    intptrSub (intptr (x % 2 ^ 64)) (intptr ((x + 1) % 2 ^ 64)) = some (-1) := by
  have hdiff : intptr (x % 2 ^ 64) - intptr ((x + 1) % 2 ^ 64) = -1 := by
    have hword := intptr_cases (x % 2 ^ 64)
    have hnext := intptr_cases ((x + 1) % 2 ^ 64)
    omega
  unfold intptrSub
  rw [hdiff, if_pos (by decide)]

/-- Two words less than a lap apart, where the lap does not cross 2^63. -/
theorem intptr_lt {d n : Nat} (hn : 2 ≤ n) (hlt : n ≤ 2 ^ 62)
    (hok : (d + n) % 2 ^ 64 < 2 ^ 63 ∨ 2 ^ 63 + n - 1 ≤ (d + n) % 2 ^ 64) :
    intptr ((d + 1) % 2 ^ 64) < intptr ((d + n) % 2 ^ 64) := by
  have hnext := intptr_cases ((d + 1) % 2 ^ 64)
  have hlap := intptr_cases ((d + n) % 2 ^ 64)
  omega

/-- The capacity: the least power of two that is at least the requested one, and no more than
    half the range of the positions. -/
theorem nextPow2_isLeast {v : Nat} (h : 2 ≤ v) (hlt : v < 2 ^ 62) :
    IsLeast {n | n.isPowerOfTwo ∧ v ≤ n} (nextPow2 v) := by
  obtain ⟨w, rfl⟩ : ∃ w, v = w + 1 := ⟨v - 1, by omega⟩
  have hsmeared := (smeared_one w).shift.shift.shift.shift.shift.shift
  have hleast := isLeast_of_smeared hsmeared (by omega) (by omega)
  have hbound := hleast.2 ⟨⟨62, rfl⟩, by omega⟩
  have hlarge : (2 : Nat) ^ 62 < 2 ^ 64 := by decide
  have hwrap := Nat.mod_eq_of_lt (Nat.lt_of_le_of_lt hbound hlarge)
  unfold nextPow2
  rw [if_neg (by omega)]
  simp only [Nat.add_sub_cancel]
  rw [hwrap]
  exact hleast

/-! ## What the sequence numbers say -/

/-- How far the cursor of the producer is ahead of what it published. -/
def Producer.ahead : Producer α → Nat
  | .idle => 0
  | .claimed _ | .filled _ _ => 1

/-- The cell the producer has got. -/
def Producer.cell : Producer α → Option Nat
  | .idle => none
  | .claimed i | .filled i _ => some i

/-- The positions in front of the consumer, up to a whole turn: what was published is in its
    cell, and the other cells are free. -/
structure Held (m : Channel α) (pub : List (Nat × α)) (deq : List α) : Prop where
  shape : ∃ k, 1 ≤ k ∧ k ≤ 62 ∧ m.queue.capacity = 2 ^ k ∧ m.queue.mask = 2 ^ k - 1
  pos : m.queue.pos = (pub.length + m.producer.ahead) % 2 ^ 64
  dq : m.queue.dq = deq.length % 2 ^ 64
  room : pub.length + m.producer.ahead ≤ deq.length + m.queue.capacity
  fifo : deq <+: pub.map Prod.snd
  cell : ∀ i, m.producer.cell = some i → i = pub.length % m.queue.capacity
  filled : ∀ i entry, m.producer = .filled i entry → (m.queue.buffer i).storage = entry
  full : ∀ k p, deq.length ≤ k → pub[k]? = some p → p.1 = k % m.queue.capacity ∧
    (m.queue.buffer (k % m.queue.capacity)).sequence = (k + 1) % 2 ^ 64 ∧
    ((∀ entry, m.consumer = .taken entry → k ≠ deq.length) →
      (m.queue.buffer (k % m.queue.capacity)).storage = p.2)
  free : ∀ k, pub.length ≤ k → k < deq.length + m.queue.capacity →
    (m.queue.buffer (k % m.queue.capacity)).sequence = k % 2 ^ 64
  ready : m.consumer = .ready → deq.length < pub.length
  taken : ∀ entry, m.consumer = .taken entry → ∃ i, pub[deq.length]? = some (i, entry)

namespace Held

variable {m : Channel α} {pub : List (Nat × α)} {deq : List α}

theorem two_le (h : Held m pub deq) : 2 ≤ m.queue.capacity ∧ m.queue.capacity ≤ 2 ^ 62 := by
  obtain ⟨k, hk, hle, hcap, -⟩ := h.shape
  have hone : 2 ^ 1 ≤ 2 ^ k := Nat.pow_le_pow_right (by decide) hk
  rw [hcap]
  exact ⟨hone, Nat.pow_le_pow_right (by decide) hle⟩

/-- The place of a position. -/
theorem place (h : Held m pub deq) (x : Nat) :
    x % 2 ^ 64 &&& m.queue.mask = x % m.queue.capacity := by
  obtain ⟨k, -, hle, hcap, hmask⟩ := h.shape
  rw [hcap, hmask]
  exact mod_and_mask (by omega) x

theorem behind (h : Held m pub deq) : deq.length ≤ pub.length := by
  have := h.fifo.length_le
  rwa [List.length_map] at this

/-- `tryClaim` of an idle producer, not where the last lap of a full queue crosses 2^63. -/
theorem tryClaim_eq (h : Held m pub deq) (hidle : m.producer = .idle) (hok : Apart m .tryClaim) :
    m.queue.tryClaim =
      if pub.length = deq.length + m.queue.capacity then (m.queue, none)
      else ({ m.queue with pos := (pub.length + 1) % 2 ^ 64 },
        some (pub.length % m.queue.capacity)) := by
  have hpos : m.queue.pos = pub.length % 2 ^ 64 := by
    rw [h.pos, hidle]
    rfl
  have hroom := h.room
  obtain ⟨htwo, hmax⟩ := h.two_le
  unfold SpscBoundedQueue.tryClaim
  dsimp only
  rw [hpos, h.place]
  by_cases hfull : pub.length = deq.length + m.queue.capacity
  · -- the cell holds the oldest entry, a whole lap behind
    have hlap : pub.length % m.queue.capacity = deq.length % m.queue.capacity := by
      rw [hfull, Nat.add_mod_right]
    have hlt : deq.length < pub.length := by omega
    have hseq := (h.full deq.length _ (Nat.le_refl _) (List.getElem?_eq_getElem hlt)).2.1
    rw [if_pos hfull, hlap, hseq, if_pos]
    rw [hfull]
    refine intptr_lt htwo hmax ?_
    rw [← hfull, ← hpos]
    refine hok ?_
    rw [hpos, hfull, h.dq, Nat.mod_add_mod]
  · have hseq := h.free pub.length (Nat.le_refl _) (by omega)
    rw [if_neg hfull, hseq, if_neg (by omega), Nat.mod_add_mod]

theorem publish_eq (h : Held m pub deq) (hahead : m.producer.ahead = 1) :
    m.queue.publish = m.queue.setSequence (pub.length % m.queue.capacity)
      ((pub.length + 1) % 2 ^ 64) := by
  have hpos : (m.queue.pos + (2 ^ 64 - 1)) % 2 ^ 64 = pub.length % 2 ^ 64 := by
    rw [h.pos, hahead]
    omega
  unfold SpscBoundedQueue.publish
  dsimp only
  rw [hpos, h.place, Nat.mod_add_mod]

theorem empty_eq (h : Held m pub deq) :
    m.queue.empty = decide (pub.length = deq.length) := by
  have hbehind := h.behind
  obtain ⟨htwo, -⟩ := h.two_le
  unfold SpscBoundedQueue.empty
  rw [h.dq, h.place, Nat.mod_add_mod]
  refine decide_eq_decide.mpr ?_
  by_cases hempty : pub.length = deq.length
  · rw [h.free deq.length (by omega) (by omega)]
    omega
  · have hlt : deq.length < pub.length := by omega
    rw [(h.full deq.length _ (Nat.le_refl _) (List.getElem?_eq_getElem hlt)).2.1]
    omega

/-- The test of `tryDequeue`, not on an empty queue right below 2^63. -/
theorem ready_eq (h : Held m pub deq) (hok : Apart m .tryDequeue) :
    m.queue.ready = some (decide (pub.length ≠ deq.length)) := by
  have hbehind := h.behind
  obtain ⟨htwo, -⟩ := h.two_le
  unfold SpscBoundedQueue.ready
  rw [h.dq, h.place, Nat.mod_add_mod]
  by_cases hempty : pub.length = deq.length
  · have hbelow : deq.length % 2 ^ 64 ≠ 2 ^ 63 - 1 := by
      rw [← h.dq]
      refine hok ?_
      rw [h.empty_eq, decide_eq_true hempty]
    rw [h.free deq.length (by omega) (by omega), intptrSub_next hbelow]
    simp [hempty]
  · have hlt : deq.length < pub.length := by omega
    rw [(h.full deq.length _ (Nat.le_refl _) (List.getElem?_eq_getElem hlt)).2.1, intptrSub_self]
    simp [hempty]

theorem take_eq (h : Held m pub deq) (moved : α → α) :
    m.queue.take moved =
      (m.queue.setStorage (deq.length % m.queue.capacity)
        (moved (m.queue.buffer (deq.length % m.queue.capacity)).storage),
      (m.queue.buffer (deq.length % m.queue.capacity)).storage) := by
  unfold SpscBoundedQueue.take
  dsimp only
  rw [h.dq, h.place]

theorem release_eq (h : Held m pub deq) :
    m.queue.release =
      { m.queue.setSequence (deq.length % m.queue.capacity)
          ((deq.length + m.queue.capacity) % 2 ^ 64) with
        dq := (deq.length + 1) % 2 ^ 64 } := by
  unfold SpscBoundedQueue.release
  rw [h.dq, h.place, Nat.mod_add_mod, Nat.mod_add_mod]

/-- The cells of two positions in front of the consumer are different. -/
theorem place_ne {n j k : Nat} (hne : j ≠ k) (hj : j < k + n) (hk : k < j + n) :
    j % n ≠ k % n := by
  rcases Nat.lt_or_gt_of_ne hne with hlt | hgt
  · exact mod_ne_of_lt hlt hk
  · exact (mod_ne_of_lt hgt hj).symm

end Held

end RocketRpc.Spsc
