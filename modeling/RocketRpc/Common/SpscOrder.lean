import RocketRpc.Common.SpscQueue

/-
  Nothing is lost between a thread that logs and the format thread.

  Each step of the producer and the consumer keeps `Held`, and what it shows is lawful: a claim
  never returns a cell with an entry that was not dequeued, and is refused on a full queue only.
  So in a run whose steps all meet `Apart` the queue loses nothing (`queue_lossless`). Any number
  of entries can pass through a queue (`exists_laps`), also 2^63 of them, and then a claim on the
  full queue returns a cell that is still full (`claim_returns_full_cell`).
-/

namespace RocketRpc.Spsc

open Machine PowerOfTwo

variable {α : Type}

namespace Held

variable {m : Channel α} {pub : List (Nat × α)} {deq : List α}

/-! ## What each step keeps -/

theorem claims (h : Held m pub deq) (hidle : m.producer = .idle)
    (hroom : pub.length ≠ deq.length + m.queue.capacity) :
    Held { m with
      queue := { m.queue with pos := (pub.length + 1) % 2 ^ 64 }
      producer := .claimed (pub.length % m.queue.capacity) } pub deq where
  shape := h.shape
  pos := rfl
  dq := h.dq
  room := by
    have hle := h.room
    rw [hidle] at hle
    simp only [Producer.ahead] at hle ⊢
    omega
  fifo := h.fifo
  cell := fun i hi => (Option.some.inj hi).symm
  filled := fun i entry heq => absurd heq (by simp)
  full := h.full
  free := h.free
  ready := h.ready
  taken := h.taken

/-- The producer fills the cell it has got, which no position in front of the consumer is in. -/
theorem fills (h : Held m pub deq) {i : Nat} (hcell : m.producer.cell = some i) (entry : α) :
    Held { m with queue := m.queue.setStorage i entry, producer := .filled i entry } pub deq := by
  have hi := h.cell i hcell
  have hahead : m.producer.ahead = 1 := by
    cases hp : m.producer with
    | idle =>
      rw [hp] at hcell
      exact absurd hcell (by simp [Producer.cell])
    | claimed _ | filled _ _ => rfl
  have hroom := h.room
  have hpos := h.pos
  rw [hahead] at hroom hpos
  refine ⟨h.shape, hpos, h.dq, hroom, h.fifo, ?_, ?_, ?_, ?_, h.ready, h.taken⟩
  · intro j hj
    obtain rfl := Option.some.inj hj
    exact hi
  · intro j x heq
    obtain ⟨rfl, rfl⟩ := Producer.filled.inj heq
    rw [SpscBoundedQueue.setStorage_storage, if_pos rfl]
  · intro k p hk hp
    obtain ⟨hplace, hseq, hstorage⟩ := h.full k p hk hp
    have hlt := (List.getElem?_eq_some_iff.mp hp).1
    refine ⟨hplace, ?_, fun hother => ?_⟩
    · rw [SpscBoundedQueue.setStorage_sequence]
      exact hseq
    · have hne : k % m.queue.capacity ≠ i := by
        rw [hi]
        exact place_ne (by omega) (by omega) (by omega)
      rw [SpscBoundedQueue.setStorage_storage]
      exact (if_neg hne).trans (hstorage hother)
  · intro k hk hlt
    rw [SpscBoundedQueue.setStorage_sequence]
    exact h.free k hk hlt

/-- The entry in the cell is published. -/
theorem publishes (h : Held m pub deq) {i : Nat} {entry : α}
    (hp : m.producer = .filled i entry) :
    Held { m with queue := m.queue.publish, producer := .idle } (pub ++ [(i, entry)]) deq := by
  have hahead : m.producer.ahead = 1 := by
    rw [hp]
    rfl
  have hi := h.cell i (by simp [hp, Producer.cell])
  have hfilled := h.filled i entry hp
  have hroom := h.room
  have hbehind := h.behind
  have hpos := h.pos
  rw [hahead] at hroom hpos
  rw [h.publish_eq hahead, ← hi]
  -- no other position in front of the consumer is in the cell
  have hother : ∀ k, deq.length ≤ k → k < deq.length + m.queue.capacity → k ≠ pub.length →
      k % m.queue.capacity ≠ i := by
    intro k hk hlt hne
    rw [hi]
    exact place_ne hne (by omega) (by omega)
  refine ⟨h.shape, ?_, h.dq, ?_, ?_, by simp [Producer.cell], by simp, ?_, ?_, ?_, ?_⟩
  · rw [List.length_append]
    exact hpos
  · rw [List.length_append]
    exact hroom
  · rw [List.map_append]
    exact h.fifo.trans (List.prefix_append _ _)
  · intro k p hk hget
    simp only [SpscBoundedQueue.setSequence_capacity, SpscBoundedQueue.setSequence_storage,
      SpscBoundedQueue.setSequence_sequence]
    rcases Nat.lt_or_ge k pub.length with hlt | hge
    · rw [List.getElem?_append_left hlt] at hget
      rw [if_neg (hother k hk (by omega) (by omega))]
      exact h.full k p hk hget
    · have hlast : k = pub.length := by
        have := (List.getElem?_eq_some_iff.mp hget).1
        rw [List.length_append, List.length_singleton] at this
        omega
      obtain rfl : (i, entry) = p := by simpa [hlast] using hget
      rw [hlast, ← hi]
      exact ⟨rfl, if_pos rfl, fun _ => hfilled⟩
  · intro k hk hlt
    rw [List.length_append, List.length_singleton] at hk
    simp only [SpscBoundedQueue.setSequence_capacity,
      SpscBoundedQueue.setSequence_sequence] at hlt ⊢
    rw [if_neg (hother k (by omega) hlt (by omega))]
    exact h.free k (by omega) hlt
  · intro hready
    rw [List.length_append]
    exact Nat.lt_of_lt_of_le (h.ready hready) (Nat.le_add_right _ _)
  · intro x hx
    obtain ⟨j, hj⟩ := h.taken x hx
    exact ⟨j, by rw [List.getElem?_append_left (List.getElem?_eq_some_iff.mp hj).1, hj]⟩

/-- The test of `tryDequeue` found an entry. -/
theorem finds (h : Held m pub deq) (hidle : m.consumer = .idle) (hne : pub.length ≠ deq.length) :
    Held { m with consumer := .ready } pub deq where
  shape := h.shape
  pos := h.pos
  dq := h.dq
  room := h.room
  fifo := h.fifo
  cell := h.cell
  filled := h.filled
  full := by
    intro k p hk hp
    obtain ⟨hplace, hseq, hstorage⟩ := h.full k p hk hp
    exact ⟨hplace, hseq, fun _ => hstorage fun entry heq => by simp [hidle] at heq⟩
  free := h.free
  ready := fun _ => by
    have := h.behind
    omega
  taken := fun entry heq => absurd heq (by simp)

/-- The first entry is moved out of its cell. -/
theorem takes (h : Held m pub deq) (moved : α → α) (hready : m.consumer = .ready) :
    Held { m with
      queue := (m.queue.take moved).1
      consumer := .taken (m.queue.take moved).2 } pub deq := by
  have hlt := h.ready hready
  have hroom := h.room
  obtain ⟨-, hseq₀, hstorage₀⟩ :=
    h.full deq.length _ (Nat.le_refl _) (List.getElem?_eq_getElem hlt)
  have hentry := hstorage₀ fun entry heq => by simp [hready] at heq
  rw [h.take_eq moved, hentry]
  -- the producer and the other positions have other cells
  have hother : ∀ k, deq.length < k → k < deq.length + m.queue.capacity →
      k % m.queue.capacity ≠ deq.length % m.queue.capacity := fun k hk hbound =>
    place_ne (by omega) (by omega) (by omega)
  refine ⟨h.shape, h.pos, h.dq, h.room, h.fifo, h.cell, ?_, ?_, ?_, by simp, ?_⟩
  · intro i entry hp
    have hi := h.cell i (by simp [show m.producer = _ from hp, Producer.cell])
    rw [show m.producer = _ from hp] at hroom
    simp only [Producer.ahead] at hroom
    rw [SpscBoundedQueue.setStorage_storage, if_neg]
    · exact h.filled i entry hp
    · rw [hi]
      exact hother pub.length hlt (by omega)
  · intro k p hk hp
    obtain ⟨hplace, hseq, hstorage⟩ := h.full k p hk hp
    refine ⟨hplace, ?_, fun hnot => ?_⟩
    · rw [SpscBoundedQueue.setStorage_sequence]
      exact hseq
    · have hne : k ≠ deq.length := hnot _ rfl
      have hbound := (List.getElem?_eq_some_iff.mp hp).1
      rw [SpscBoundedQueue.setStorage_storage]
      refine (if_neg (hother k (by omega) (by omega))).trans (hstorage fun entry heq => ?_)
      simp [hready] at heq
  · intro k hk hbound
    rw [SpscBoundedQueue.setStorage_sequence]
    exact h.free k hk hbound
  · intro entry heq
    obtain rfl := Consumer.taken.inj heq
    exact ⟨_, List.getElem?_eq_getElem hlt⟩

/-- The cell of the first entry is given back, for the position a turn later. -/
theorem releases (h : Held m pub deq) {entry : α} (htaken : m.consumer = .taken entry) :
    Held { m with queue := m.queue.release, consumer := .idle } pub (deq ++ [entry]) := by
  obtain ⟨i, hfirst⟩ := h.taken entry htaken
  have hlt := (List.getElem?_eq_some_iff.mp hfirst).1
  have hroom := h.room
  rw [h.release_eq]
  have hother : ∀ k, deq.length < k → k < deq.length + m.queue.capacity →
      k % m.queue.capacity ≠ deq.length % m.queue.capacity := fun k hk hbound =>
    place_ne (by omega) (by omega) (by omega)
  refine ⟨h.shape, h.pos, ?_, ?_, ?_, h.cell, ?_, ?_, ?_, by simp, by simp⟩
  · rw [List.length_append]
    rfl
  · rw [List.length_append, List.length_singleton]
    simp only [SpscBoundedQueue.setSequence_capacity]
    omega
  · obtain ⟨rest, hrest⟩ := h.fifo
    have hnext : (pub.map Prod.snd)[deq.length]? = some entry := by
      rw [List.getElem?_map, hfirst]
      rfl
    rw [← hrest, List.getElem?_append_right (Nat.le_refl _), Nat.sub_self,
      ← List.head?_eq_getElem?] at hnext
    obtain ⟨rest', rfl⟩ := List.head?_eq_some_iff.mp hnext
    exact ⟨rest', by rw [← hrest, List.append_assoc, List.singleton_append]⟩
  · intro j x hp
    rw [SpscBoundedQueue.setSequence_storage]
    exact h.filled j x hp
  · intro k p hk hp
    rw [List.length_append, List.length_singleton] at hk
    obtain ⟨hplace, hseq, hstorage⟩ := h.full k p (by omega) hp
    have hbound := (List.getElem?_eq_some_iff.mp hp).1
    simp only [SpscBoundedQueue.setSequence_capacity, SpscBoundedQueue.setSequence_storage,
      SpscBoundedQueue.setSequence_sequence]
    rw [if_neg (hother k (by omega) (by omega))]
    exact ⟨hplace, hseq, fun _ => hstorage fun _ _ => by omega⟩
  · intro k hk hbound
    rw [List.length_append, List.length_singleton] at hbound
    simp only [SpscBoundedQueue.setSequence_capacity,
      SpscBoundedQueue.setSequence_sequence] at hbound ⊢
    by_cases hnext : k = deq.length + m.queue.capacity
    · rw [hnext, Nat.add_mod_right, if_pos rfl]
    · rw [if_neg (hother k (by omega) (by omega))]
      exact h.free k hk (by omega)

/-- A queue nothing was published to. -/
theorem new (blank : α) {cap : Nat} (hcap : cap < 2 ^ 62) :
    Held (Channel.new blank cap) [] [] := by
  have hleast := nextPow2_isLeast (Nat.le_max_right cap 2) (by omega)
  obtain ⟨⟨⟨k, hk⟩, htwo⟩, hmin⟩ := hleast
  have hbound := hmin ⟨⟨62, rfl⟩, by omega⟩
  have hpos : 1 ≤ k := by
    refine Nat.one_le_iff_ne_zero.mpr fun hzero => ?_
    rw [hk, hzero] at htwo
    omega
  have hle : k ≤ 62 := by
    rw [hk] at hbound
    exact (Nat.pow_le_pow_iff_right (by decide)).mp hbound
  refine ⟨⟨k, hpos, hle, hk, congrArg (· - 1) hk⟩, rfl, rfl, Nat.zero_le _, List.nil_prefix,
    by simp [Channel.new, Producer.cell], by simp [Channel.new], by simp, ?_,
    by simp [Channel.new], by simp [Channel.new]⟩
  intro j _ hj
  have hj' : j < nextPow2 (max cap 2) := by simpa [Channel.new, SpscBoundedQueue.new] using hj
  show j % nextPow2 (max cap 2) = j % 2 ^ 64
  rw [Nat.mod_eq_of_lt hj', Nat.mod_eq_of_lt (by omega)]

end Held

/-! ## Steps and runs -/

@[simp] theorem published_append (tr es : List (Event α)) :
    published (tr ++ es) = published tr ++ published es := List.filterMap_append

@[simp] theorem dequeued_append (tr es : List (Event α)) :
    dequeued (tr ++ es) = dequeued tr ++ dequeued es := List.filterMap_append

/-- What holds in a run: the queue holds what was published and not dequeued, its capacity does
    not change, and every event so far was lawful. -/
structure Sound (n : Nat) (m : Channel α) (tr : List (Event α)) : Prop where
  capacity_eq : m.queue.capacity = n
  held : Held m (published tr) (dequeued tr)
  lawful : EachAfter (fun tr e => e.Lawful n (published tr) (dequeued tr)) tr

/-- No two entries in front of the consumer are in one cell, and there is no entry in the cell
    that a producer claims. -/
theorem Held.not_mem_waiting {m : Channel α} {pub : List (Nat × α)} {deq : List α}
    (h : Held m pub deq) (hroom : pub.length < deq.length + m.queue.capacity) :
    pub.length % m.queue.capacity ∉ (pub.drop deq.length).map Prod.fst := by
  intro hmem
  obtain ⟨p, hp, heq⟩ := List.mem_map.mp hmem
  obtain ⟨k, hk⟩ := List.mem_iff_getElem?.mp hp
  rw [List.getElem?_drop] at hk
  have hlt := (List.getElem?_eq_some_iff.mp hk).1
  have hplace := (h.full _ p (Nat.le_add_right _ _) hk).1
  refine place_ne ?_ ?_ ?_ (hplace.symm.trans heq)
  · omega
  · omega
  · omega

section Run

variable {moved : α → α} {n : Nat} {m m' : Channel α} {tr es : List (Event α)}

/-- A step that shows nothing. -/
theorem Sound.quiet (h : Sound n m tr) (hcap : m'.queue.capacity = n)
    (hheld : Held m' (published tr) (dequeued tr)) : Sound n m' (tr ++ []) := by
  rw [List.append_nil]
  exact ⟨hcap, hheld, h.lawful⟩

/-- A step whose event neither publishes nor dequeues. -/
theorem Sound.shows (h : Sound n m tr) {e : Event α} (hpub : e.publishes = none)
    (hdeq : e.dequeues = none) (he : e.Lawful m.queue.capacity (published tr) (dequeued tr))
    (hcap : m'.queue.capacity = n) (hheld : Held m' (published tr) (dequeued tr)) :
    Sound n m' (tr ++ [e]) := by
  refine ⟨hcap, ?_, h.lawful.concat (h.capacity_eq ▸ he)⟩
  have hp : published [e] = [] := by simp [published, hpub]
  have hd : dequeued [e] = [] := by simp [dequeued, hdeq]
  rw [published_append, dequeued_append, hp, hd, List.append_nil, List.append_nil]
  exact hheld

theorem Sound.tryClaim (h : Sound n m tr) (hok : Apart m .tryClaim)
    (hs : m.step moved .tryClaim = some (m', es)) : Sound n m' (tr ++ es) := by
  have hcap := h.capacity_eq
  have hroom := h.held.room
  cases hp : m.producer with
  | claimed _ | filled _ _ => simp [Channel.step, hp] at hs
  | idle =>
    rw [hp] at hroom
    simp only [Channel.step, hp, h.held.tryClaim_eq hp hok] at hs
    by_cases hfull : (published tr).length = (dequeued tr).length + m.queue.capacity
    · simp only [if_pos hfull] at hs
      obtain ⟨rfl, rfl⟩ := Prod.mk.inj (Option.some.inj hs)
      exact h.shows rfl rfl hfull hcap h.held
    · simp only [if_neg hfull] at hs
      obtain ⟨rfl, rfl⟩ := Prod.mk.inj (Option.some.inj hs)
      refine h.shows rfl rfl ⟨hfull, h.held.not_mem_waiting ?_⟩ hcap (h.held.claims hp hfull)
      simp only [Producer.ahead] at hroom
      omega

theorem Sound.fill (h : Sound n m tr) {entry : α}
    (hs : m.step moved (.fill entry) = some (m', es)) : Sound n m' (tr ++ es) := by
  cases hp : m.producer with
  | idle => simp [Channel.step, hp] at hs
  | claimed i | filled i _ =>
    simp only [Channel.step, hp] at hs
    obtain ⟨rfl, rfl⟩ := Prod.mk.inj (Option.some.inj hs)
    exact h.quiet h.capacity_eq (h.held.fills (by simp [hp, Producer.cell]) entry)

theorem Sound.publish (h : Sound n m tr) (hs : m.step moved .publish = some (m', es)) :
    Sound n m' (tr ++ es) := by
  cases hp : m.producer with
  | idle | claimed _ => simp [Channel.step, hp] at hs
  | filled i entry =>
    simp only [Channel.step, hp] at hs
    obtain ⟨rfl, rfl⟩ := Prod.mk.inj (Option.some.inj hs)
    refine ⟨h.capacity_eq, ?_, h.lawful.concat trivial⟩
    rw [published_append, dequeued_append]
    show Held _ _ (dequeued tr ++ [])
    rw [List.append_nil]
    exact h.held.publishes hp

theorem Sound.tryDequeue (h : Sound n m tr) (hok : Apart m .tryDequeue)
    (hs : m.step moved .tryDequeue = some (m', es)) : Sound n m' (tr ++ es) := by
  cases hc : m.consumer with
  | ready | taken _ | undefined => simp [Channel.step, hc] at hs
  | idle =>
    simp only [Channel.step, hc, h.held.ready_eq hok] at hs
    by_cases hempty : (published tr).length = (dequeued tr).length
    · simp only [hempty, ne_eq, not_true_eq_false, decide_false] at hs
      obtain ⟨rfl, rfl⟩ := Prod.mk.inj (Option.some.inj hs)
      exact h.shows rfl rfl trivial h.capacity_eq h.held
    · simp only [ne_eq, hempty, not_false_eq_true, decide_true] at hs
      obtain ⟨rfl, rfl⟩ := Prod.mk.inj (Option.some.inj hs)
      exact h.quiet h.capacity_eq (h.held.finds hc hempty)

theorem Sound.take (h : Sound n m tr) (hs : m.step moved .take = some (m', es)) :
    Sound n m' (tr ++ es) := by
  cases hc : m.consumer with
  | idle | taken _ | undefined => simp [Channel.step, hc] at hs
  | ready =>
    simp only [Channel.step, hc] at hs
    obtain ⟨rfl, rfl⟩ := Prod.mk.inj (Option.some.inj hs)
    exact h.quiet h.capacity_eq (h.held.takes moved hc)

theorem Sound.release (h : Sound n m tr) (hs : m.step moved .release = some (m', es)) :
    Sound n m' (tr ++ es) := by
  cases hc : m.consumer with
  | idle | ready | undefined => simp [Channel.step, hc] at hs
  | taken entry =>
    simp only [Channel.step, hc] at hs
    obtain ⟨rfl, rfl⟩ := Prod.mk.inj (Option.some.inj hs)
    refine ⟨h.capacity_eq, ?_, h.lawful.concat trivial⟩
    rw [published_append, dequeued_append]
    show Held _ (published tr ++ []) _
    rw [List.append_nil]
    exact h.held.releases hc

theorem Sound.empty (h : Sound n m tr) (hs : m.step moved .empty = some (m', es)) :
    Sound n m' (tr ++ es) := by
  cases hc : m.consumer with
  | ready | taken _ | undefined => simp [Channel.step, hc] at hs
  | idle =>
    simp only [Channel.step, hc] at hs
    obtain ⟨rfl, rfl⟩ := Prod.mk.inj (Option.some.inj hs)
    refine h.shows rfl rfl ?_ h.capacity_eq h.held
    simp only [Event.Lawful, h.held.empty_eq, decide_eq_true_iff]

theorem step_sound {l : Label α} (h : Sound n m tr) (hok : Apart m l)
    (hs : m.step moved l = some (m', es)) : Sound n m' (tr ++ es) := by
  cases l with
  | tryClaim => exact h.tryClaim hok hs
  | fill entry => exact h.fill hs
  | publish => exact h.publish hs
  | tryDequeue => exact h.tryDequeue hok hs
  | take => exact h.take hs
  | release => exact h.release hs
  | empty => exact h.empty hs

end Run

theorem sound_new (blank : α) {request : Nat} (h : request < 2 ^ 62) :
    Sound (nextPow2 (max request 2)) (Channel.new blank request) [] :=
  ⟨rfl, Held.new blank h, eachAfter_nil⟩

/-! ## Main result -/

/-- In a run whose steps all meet the condition the queue loses nothing. -/
theorem queue_lossless (blank : α) (moved : α → α) (request : Nat) (ls : List (Label α))
    (m : Channel α) (tr : List (Event α)) (hrequest : request < 2 ^ 62)
    (hrun : run (Channel.step moved) (Channel.new blank request) ls = some (m, tr))
    (hok : RunOk (Channel.step moved) Apart (Channel.new blank request) ls) :
    Lossless request m tr := by
  have h := runOk_induction (Sound (nextPow2 (max request 2)))
    (fun _ _ _ _ _ hp hin hs => step_sound hp hin hs) [] (sound_new blank hrequest) hok hrun
  refine ⟨?_, h.held.fifo, ?_⟩
  · rw [h.capacity_eq, Nat.max_comm]
    exact nextPow2_isLeast (Nat.le_max_right _ _) (by omega)
  · rw [h.capacity_eq]
    exact h.lawful

/-- A queue of two cells is filled, a third claim is refused, and an entry is taken out between
    the two halves of the next one. -/
def fullQueue : List (Label Nat) :=
  [.tryClaim, .fill 1, .publish, .tryClaim, .fill 2, .publish, .tryClaim, .tryDequeue, .take,
    .tryClaim, .release, .tryClaim, .fill 3, .publish, .empty]

theorem queue_lossless_full :
    ∃ m tr, run (Channel.step id) (Channel.new 0 2) fullQueue = some (m, tr) ∧
      tr = [.claimed 0, .published 0 1, .claimed 1, .published 1 2, .refused, .refused,
        .dequeued 1, .claimed 0, .published 0 3, .isEmpty false] ∧ Lossless 2 m tr := by
  have hrun : (run (Channel.step id) (Channel.new 0 2) fullQueue).map Prod.snd =
      some [.claimed 0, .published 0 1, .claimed 1, .published 1 2, .refused, .refused,
        .dequeued 1, .claimed 0, .published 0 3, .isEmpty false] := by decide +kernel
  have hok : RunOk (Channel.step id) Apart (Channel.new 0 2) fullQueue := by decide +kernel
  obtain ⟨⟨m, tr⟩, hm, htr⟩ := Option.map_eq_some_iff.mp hrun
  exact ⟨m, tr, hm, htr, queue_lossless 0 id 2 fullQueue m tr (by decide) hm hok⟩

/-! ## The last lap below 2^63 -/

section Laps

variable (moved : α → α) {n : Nat} {m : Channel α} {tr : List (Event α)}

/-- A claim on a queue that is not full meets the condition. -/
theorem Held.apart_tryClaim {pub : List (Nat × α)} {deq : List α} (h : Held m pub deq)
    (hidle : m.producer = .idle) (hroom : pub.length ≠ deq.length + m.queue.capacity) :
    Apart m .tryClaim := by
  intro hfull
  have hle := h.room
  have hbehind := h.behind
  obtain ⟨-, hmax⟩ := h.two_le
  rw [h.pos, h.dq, hidle] at hfull
  rw [hidle] at hle
  simp only [Producer.ahead] at hfull hle
  omega

/-- So does a try on a queue that is not empty. -/
theorem Held.apart_tryDequeue {pub : List (Nat × α)} {deq : List α} (h : Held m pub deq)
    (hne : pub.length ≠ deq.length) : Apart m .tryDequeue := by
  intro hempty
  rw [h.empty_eq] at hempty
  exact absurd (of_decide_eq_true hempty) hne

/-- A producer puts an entry into a queue that is not full. -/
theorem Sound.put (h : Sound n m tr) (hidle : m.producer = .idle)
    (hroom : (published tr).length ≠ (dequeued tr).length + n) (entry : α) :
    ∃ m' es, run (Channel.step moved) m [.tryClaim, .fill entry, .publish] = some (m', es) ∧
      Sound n m' (tr ++ es) ∧ m'.producer = .idle ∧ m'.consumer = m.consumer ∧
      (published (tr ++ es)).length = (published tr).length + 1 ∧
      dequeued (tr ++ es) = dequeued tr := by
  rw [← h.capacity_eq] at hroom
  have hapart := h.held.apart_tryClaim hidle hroom
  obtain ⟨m', hrun, hproducer, hconsumer⟩ : ∃ m', run (Channel.step moved) m
      [.tryClaim, .fill entry, .publish] = some (m',
        [.claimed ((published tr).length % m.queue.capacity),
          .published ((published tr).length % m.queue.capacity) entry]) ∧
      m'.producer = .idle ∧ m'.consumer = m.consumer := by
    simp only [run, Channel.step, hidle, h.held.tryClaim_eq hidle hapart, if_neg hroom,
      Option.map_some]
    exact ⟨_, rfl, rfl, rfl⟩
  have hok : RunOk (Channel.step moved) Apart m [.tryClaim, .fill entry, .publish] :=
    ⟨hapart, fun _ _ _ => ⟨trivial, fun _ _ _ => ⟨trivial, fun _ _ _ => trivial⟩⟩⟩
  have hsound := runOk_induction (Sound n)
    (fun _ _ _ _ _ hp hin hs => step_sound hp hin hs) tr h hok hrun
  refine ⟨m', _, hrun, hsound, hproducer, hconsumer, ?_, ?_⟩
  · rw [published_append, List.length_append]
    rfl
  · rw [dequeued_append]
    exact List.append_nil _

/-- A consumer gets the first entry of a queue that is not empty. -/
theorem Sound.get (h : Sound n m tr) (hidle : m.consumer = .idle)
    (hne : (published tr).length ≠ (dequeued tr).length) :
    ∃ m' es, run (Channel.step moved) m [.tryDequeue, .take, .release] = some (m', es) ∧
      Sound n m' (tr ++ es) ∧ m'.producer = m.producer ∧ m'.consumer = .idle ∧
      published (tr ++ es) = published tr ∧
      (dequeued (tr ++ es)).length = (dequeued tr).length + 1 := by
  have hapart := h.held.apart_tryDequeue hne
  obtain ⟨m', hrun, hproducer, hconsumer⟩ : ∃ m', run (Channel.step moved) m
      [.tryDequeue, .take, .release] = some (m', [.dequeued (m.queue.take moved).2]) ∧
      m'.producer = m.producer ∧ m'.consumer = .idle := by
    simp only [run, Channel.step, hidle, h.held.ready_eq hapart, ne_eq, hne, not_false_eq_true,
      decide_true, Option.map_some]
    exact ⟨_, rfl, rfl, rfl⟩
  have hok : RunOk (Channel.step moved) Apart m [.tryDequeue, .take, .release] :=
    ⟨hapart, fun _ _ _ => ⟨trivial, fun _ _ _ => ⟨trivial, fun _ _ _ => trivial⟩⟩⟩
  have hsound := runOk_induction (Sound n)
    (fun _ _ _ _ _ hp hin hs => step_sound hp hin hs) tr h hok hrun
  refine ⟨m', _, hrun, hsound, hproducer, hconsumer, ?_, ?_⟩
  · rw [published_append]
    exact List.append_nil _
  · rw [dequeued_append, List.length_append]
    rfl

/-- Any number of entries can pass through a queue. -/
theorem exists_laps (blank entry : α) {request : Nat} (hrequest : request < 2 ^ 62) (k : Nat) :
    ∃ ls m tr, run (Channel.step moved) (Channel.new blank request) ls = some (m, tr) ∧
      Sound (nextPow2 (max request 2)) m tr ∧ m.producer = .idle ∧ m.consumer = .idle ∧
      (published tr).length = k ∧ (dequeued tr).length = k := by
  induction k with
  | zero => exact ⟨[], _, [], rfl, sound_new blank hrequest, rfl, rfl, rfl, rfl⟩
  | succ k ih =>
    obtain ⟨ls, m, tr, hrun, hsound, hproducer, hconsumer, hpub, hdeq⟩ := ih
    have htwo := hsound.capacity_eq ▸ hsound.held.two_le.1
    obtain ⟨m₁, es₁, hput, hsound₁, hproducer₁, hconsumer₁, hpub₁, hdeq₁⟩ :=
      hsound.put moved hproducer (by omega) entry
    obtain ⟨m₂, es₂, hget, hsound₂, hproducer₂, hconsumer₂, hpub₂, hdeq₂⟩ :=
      hsound₁.get moved (hconsumer₁.trans hconsumer) (by rw [hdeq₁]; omega)
    refine ⟨ls ++ ([.tryClaim, .fill entry, .publish] ++ [.tryDequeue, .take, .release]), m₂,
      tr ++ (es₁ ++ es₂), ?_, ?_, hproducer₂.trans hproducer₁, hconsumer₂, ?_, ?_⟩
    · exact run_append.mpr ⟨m, tr, _, hrun, run_append.mpr ⟨m₁, es₁, es₂, hput, hget, rfl⟩, rfl⟩
    · rwa [← List.append_assoc]
    · rw [← List.append_assoc, hpub₂, hpub₁, hpub]
    · rw [← List.append_assoc, hdeq₂, hdeq₁, hdeq]

end Laps

/-- A claim on a full queue whose last lap crosses 2^63 gets the cell of the oldest entry. -/
theorem Held.tryClaim_late {m : Channel α} {pub : List (Nat × α)} {deq : List α}
    (h : Held m pub deq) (hidle : m.producer = .idle)
    (hfull : pub.length = deq.length + m.queue.capacity) (hlate : ¬ Apart m .tryClaim) :
    m.queue.tryClaim = ({ m.queue with pos := (pub.length + 1) % 2 ^ 64 },
      some (deq.length % m.queue.capacity)) := by
  have hpos : m.queue.pos = pub.length % 2 ^ 64 := by
    rw [h.pos, hidle]
    rfl
  obtain ⟨htwo, hmax⟩ := h.two_le
  have hlap : pub.length % m.queue.capacity = deq.length % m.queue.capacity := by
    rw [hfull, Nat.add_mod_right]
  have hlt : deq.length < pub.length := by omega
  have hseq := (h.full deq.length _ (Nat.le_refl _) (List.getElem?_eq_getElem hlt)).2.1
  have hcross : ¬ intptr ((deq.length + 1) % 2 ^ 64) < intptr (pub.length % 2 ^ 64) := by
    have hwindow := (Classical.not_imp.mp hlate).2
    have hdequeued := intptr_cases ((deq.length + 1) % 2 ^ 64)
    have hclaimed := intptr_cases (pub.length % 2 ^ 64)
    rw [hpos] at hwindow
    omega
  unfold SpscBoundedQueue.tryClaim
  dsimp only
  rw [hpos, h.place, hlap, hseq, if_neg hcross, Nat.mod_add_mod]

/-- After 2^63 entries, with the last two still in the queue, a third claim returns the cell of
    the older one. -/
theorem claim_returns_full_cell :
    ¬ ∀ (blank : Unit) (moved : Unit → Unit) (request : Nat) (ls : List (Label Unit))
        (m : Channel Unit) (tr : List (Event Unit)), request < 2 ^ 62 →
      run (Channel.step moved) (Channel.new blank request) ls = some (m, tr) →
        Lossless request m tr := by
  intro h
  have hrequest : 2 < 2 ^ 62 := by decide
  have hcap : nextPow2 (max 2 2) = 2 := by decide +kernel
  obtain ⟨ls, m, tr, hrun, hsound, hproducer, -, hpub, hdeq⟩ :=
    exists_laps id () () hrequest (2 ^ 63 - 2)
  rw [hcap] at hsound
  obtain ⟨m₁, es₁, hput₁, hsound₁, hproducer₁, -, hpub₁, hdeq₁⟩ :=
    hsound.put id hproducer (by omega) ()
  obtain ⟨m₂, es₂, hput₂, hsound₂, hproducer₂, -, hpub₂, hdeq₂⟩ :=
    hsound₁.put id hproducer₁ (by rw [hdeq₁]; omega) ()
  rw [hdeq₁] at hdeq₂
  have hcap₂ := hsound₂.capacity_eq
  have hpos : m₂.queue.pos = 2 ^ 63 := by
    rw [hsound₂.held.pos, hproducer₂, hpub₂, hpub₁, hpub]
    rfl
  have hfull : (published (tr ++ es₁ ++ es₂)).length =
      (dequeued (tr ++ es₁ ++ es₂)).length + m₂.queue.capacity := by
    rw [hcap₂, hdeq₂, hdeq]
    omega
  have hlate : ¬ Apart m₂ .tryClaim := by
    intro hapart
    have hdq : m₂.queue.pos = (m₂.queue.dq + m₂.queue.capacity) % 2 ^ 64 := by
      rw [hpos, hcap₂, hsound₂.held.dq, hdeq₂, hdeq]
      rfl
    have := hapart hdq
    rw [hpos, hcap₂] at this
    omega
  have hclaim := hsound₂.held.tryClaim_late hproducer₂ hfull hlate
  obtain ⟨m₃, hlast, hcap₃⟩ : ∃ m₃, run (Channel.step id) m₂ [.tryClaim] = some (m₃,
      [.claimed ((dequeued (tr ++ es₁ ++ es₂)).length % m₂.queue.capacity)]) ∧
      m₃.queue.capacity = m₂.queue.capacity := by
    simp only [run, Channel.step, hproducer₂, hclaim, Option.map_some]
    exact ⟨_, rfl, rfl⟩
  have hruns := run_append.mpr ⟨m₂, _, _, run_append.mpr ⟨m₁, _, _, run_append.mpr
    ⟨m, tr, es₁, hrun, hput₁, rfl⟩, hput₂, rfl⟩, hlast, rfl⟩
  have hlawful := (h () id 2 _ m₃ _ hrequest hruns).lawful _ _ [] rfl
  rw [hcap₃] at hlawful
  exact hlawful.1 hfull

end RocketRpc.Spsc
