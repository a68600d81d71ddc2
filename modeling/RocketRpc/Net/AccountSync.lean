import RocketRpc.Net.AsideSteps
import RocketRpc.Net.Delivery
import RocketRpc.Net.MessageAccount

/-
  The account of messages is true to the connection.

  `Tracks` says so: the account has the messages of `m_write_queue` and of the round of a
  drain, a message for every thread in `send`, and what it calls encoded is what the
  connection has encoded. Every step keeps it, whatever the connection goes through.
-/

namespace RocketRpc.Net

open RocketRpc.Tcp RocketRpc.Coder Machine Account

variable {crc : Bytes → UInt32}

/-! ## The invariant of the account -/

/-- The account and the connection speak of the same messages. -/
structure Sync (w : World) (a : Account) : Prop where
  queue : a.queue.map Sent.message = w.conn.writeQueue.map Node.message
  idle : ∀ t, w.senders t = .idle → a.entry t = none
  busy : ∀ t, w.senders t ≠ .idle → ∃ e, a.entry t = some e
  pushing : ∀ t m e, w.senders t = .pushing m → a.entry t = some e → e.message = m

/-- A message that is under way is nobody else's and not yet owed. -/
structure Numbered (a : Account) : Prop where
  owed_lt : ∀ e ∈ a.owed, e.number < a.next
  queue_lt : ∀ e ∈ a.queue, e.number < a.next
  entry_lt : ∀ t e, a.entry t = some e → e.number < a.next
  entry_not_owed : ∀ t e, a.entry t = some e → e ∉ a.owed
  entry_inj : ∀ t t' e, a.entry t = some e → a.entry t' = some e → t = t'

def topKept : List Frame → List AbstractProtocol
  | [] => []
  | f :: _ => f.kept

/-- The round of a drain is on top of the stack while it has messages, and the connection is
    established then. -/
structure Batching (w : World) (a : Account) : Prop where
  top : topKept w.stack = a.batch.map Sent.message
  below : ∀ f ∈ w.stack.tail, f.kept = []
  last : ∀ b ms, .drain 3 b ms ∈ w.stack → ms = []
  connected : a.batch ≠ [] → w.conn.state = .connected

/-- The account is true to the connection. -/
structure Tracks (crc : Bytes → UInt32) (x : Tracked) (tr : List Event) : Prop where
  sync : Sync x.world x.account
  numbered : Numbered x.account
  round : Batching x.world x.account
  encoded : encodedMessages tr = sealedAll crc (x.account.encoded.map Sent.message)

theorem sealedAll_append (ms ns : List AbstractProtocol) :
    sealedAll crc (ms ++ ns) = sealedAll crc ms ++ sealedAll crc ns := by
  induction ms with
  | nil => rfl
  | cons m ms ih =>
    cases m with
    | other => exact congrArg (AbstractProtocol.other :: ·) ih
    | tinyPB m => exact congrArg (AbstractProtocol.tinyPB (sealed crc m) :: ·) ih

theorem topKept_eq_nil {stack : List Frame} (h : ∀ f ∈ stack, f.kept = []) :
    topKept stack = [] := by
  cases stack with
  | nil => rfl
  | cons f stack => exact h f List.mem_cons_self

theorem topKept_of_idle {stack : List Frame} (h : stack = []) : topKept stack = [] := by
  rw [h]
  rfl

/-- A round that keeps nothing is as good as none. -/
theorem round_of_stack {w : World} {a : Account} (hstack : ∀ f ∈ w.stack, f.kept = [])
    (hbatch : a.batch = []) : Batching w a where
  top := by rw [topKept_eq_nil hstack, hbatch, List.map_nil]
  below f hf := hstack f (List.mem_of_mem_tail hf)
  last b ms hmem := hstack _ hmem
  connected hne := absurd hbatch hne

/-- With a frame on top that keeps nothing, no frame does. -/
theorem Batching.nothing {w : World} {a : Account} (h : Batching w a)
    (htop : topKept w.stack = []) : a.batch = [] ∧ ∀ f ∈ w.stack, f.kept = [] := by
  refine ⟨List.map_eq_nil_iff.mp (h.top.symm.trans htop), fun f hf => ?_⟩
  have hbelow := h.below
  cases hs : w.stack with
  | nil => simp [hs] at hf
  | cons g stack =>
    rw [hs] at hf hbelow htop
    rcases List.mem_cons.mp hf with rfl | hf
    · exact htop
    · exact hbelow f hf

/-- A step beside the queue keeps the account. -/
theorem Tracks.aside {x : Tracked} {tr : List Event} {w' : World} {es : List Event}
    (h : Tracks crc x tr) (hqueue : w'.conn.writeQueue = x.world.conn.writeQueue)
    (hsenders : w'.senders = x.world.senders) (hstack : ∀ f ∈ w'.stack, f.kept = [])
    (hbatch : x.account.batch = []) (hes : encodedMessages es = []) :
    Tracks crc ⟨w', x.account⟩ (tr ++ es) where
  sync := ⟨by rw [hqueue, h.sync.queue], fun t ht => h.sync.idle t (hsenders ▸ ht),
    fun t ht => h.sync.busy t (hsenders ▸ ht), fun t m e ht => h.sync.pushing t m e (hsenders ▸ ht)⟩
  numbered := h.numbered
  round := round_of_stack hstack hbatch
  encoded := by rw [encodedMessages_append, hes, List.append_nil, h.encoded]

/-- Somebody calls `shutdown`. -/
theorem Tracks.setShut {x : Tracked} {tr : List Event} (h : Tracks crc x tr) :
    Tracks crc ⟨x.world, { x.account with shut := true }⟩ tr where
  sync := ⟨h.sync.queue, h.sync.idle, h.sync.busy, h.sync.pushing⟩
  numbered := ⟨h.numbered.owed_lt, h.numbered.queue_lt, h.numbered.entry_lt,
    h.numbered.entry_not_owed, h.numbered.entry_inj⟩
  round := ⟨h.round.top, h.round.below, h.round.last, h.round.connected⟩
  encoded := h.encoded

/-! ## Sends on the loop -/

/-- A message gets a number that is new. -/
theorem Numbered.fresh {a : Account} (h : Numbered a) (message : AbstractProtocol)
    (encoded : List Sent) :
    Numbered ({ a with next := a.next + 1, encoded }.accept ⟨a.next, message⟩) where
  owed_lt e he := by
    rcases mem_accept.mp he with he | ⟨-, rfl⟩
    · have hlt := h.owed_lt e he
      rw [accept_eq]
      exact Nat.lt_succ_of_lt hlt
    · rw [accept_eq]
      exact Nat.lt_succ_self _
  queue_lt e he := by
    rw [accept_eq] at he ⊢
    exact Nat.lt_succ_of_lt (h.queue_lt e he)
  entry_lt t e he := by
    rw [accept_entry] at he
    rw [accept_eq]
    exact Nat.lt_succ_of_lt (h.entry_lt t e he)
  entry_not_owed t e he hmem := by
    rw [accept_entry] at he
    rcases mem_accept.mp hmem with hmem | ⟨-, rfl⟩
    · exact h.entry_not_owed t e he hmem
    · exact absurd (h.entry_lt t _ he) (Nat.lt_irrefl _)
  entry_inj t t' e ht ht' := by
    rw [accept_entry] at ht ht'
    exact h.entry_inj t t' e ht ht'

/-- A message that `send` on the loop lets pass. -/
theorem sendInLoop_tracks {x : Tracked} {tr : List Event} (h : Tracks crc x tr)
    {message : AbstractProtocol} (htop : topKept x.world.stack = []) :
    Tracks crc ⟨(x.world.sendInLoopBatch crc [message]).1,
      x.account.sendInLoop crc x.world message⟩
      (tr ++ (x.world.sendInLoopBatch crc [message]).2) := by
  obtain ⟨w, a⟩ := x
  obtain ⟨hbatch, hstack⟩ := h.round.nothing htop
  have hb : Batches crc w _ [message] _ := sendInLoopBatch_batches w [message]
  obtain ⟨fs, hfs, hkept⟩ := hb.stack
  unfold Account.sendInLoop
  refine ⟨⟨?_, fun t ht => ?_, fun t ht => ?_, fun t m e ht he => ?_⟩, h.numbered.fresh _ _,
    round_of_stack (fun f hf => ?_) ?_, ?_⟩
  · rw [accept_eq, hb.queue]
    exact h.sync.queue
  · rw [accept_entry]
    exact h.sync.idle t (hb.senders ▸ ht)
  · simp only [accept_entry]
    exact h.sync.busy t (hb.senders ▸ ht)
  · rw [accept_entry] at he
    exact h.sync.pushing t m e (hb.senders ▸ ht) he
  · rw [hfs] at hf
    exact (List.mem_append.mp hf).elim (hkept f) (hstack f)
  · rw [accept_eq]
    exact hbatch
  · rw [encodedMessages_append, hb.encoded, h.encoded, accept_eq]
    dsimp only [Account.encodes]
    simp only [List.map_cons, List.map_nil]
    split <;> simp [sealedAll_append]

/-! ## Drains -/

/-- What `pop` takes is the first message. -/
theorem pop_eq_some {queue rest : List Node} {sees : Bool} {node : Node}
    (h : MpscQueue.pop queue sees = some (node, rest)) : queue = node :: rest := by
  unfold MpscQueue.pop at h
  split at h
  · exact absurd h (by simp)
  · split at h
    · obtain ⟨rfl, rfl⟩ := Prod.mk.inj (Option.some.inj h)
      rfl
    · exact absurd h (by simp)

/-- The account has the message that the queue has. -/
theorem Sync.head {w : World} {a : Account} (h : Sync w a) {node : Node} {nodes : List Node}
    (hqueue : w.conn.writeQueue = node :: nodes) :
    ∃ e queue, a.queue = e :: queue ∧ e.message = node.message ∧
      queue.map Sent.message = nodes.map Node.message := by
  have hsync := h.queue
  rw [hqueue] at hsync
  cases hq : a.queue with
  | nil => simp [hq] at hsync
  | cons e queue =>
    rw [hq, List.map_cons, List.map_cons] at hsync
    exact ⟨e, queue, rfl, (List.cons.inj hsync).1, (List.cons.inj hsync).2⟩

/-- A drain pops a message, and drops it outside `Connected`. -/
theorem pop_tracks {x : Tracked} {tr : List Event} (h : Tracks crc x tr) {round batch : Nat}
    {ms : List AbstractProtocol} {stack : List Frame} {node : Node} {nodes : List Node}
    (hstack : x.world.stack = .drain round batch ms :: stack) (hround : round ≠ 3)
    (hqueue : x.world.conn.writeQueue = node :: nodes) :
    Tracks crc ⟨{ x.world with
        stack := .drain round (batch + 1)
          (if x.world.conn.state = .connected then ms ++ [node.message] else ms) :: stack
        conn := { x.world.conn with writeQueue := nodes } }, x.account.pop x.world⟩ tr := by
  obtain ⟨w, a⟩ := x
  obtain ⟨e, queue, ha, hmsg, hrest⟩ := h.sync.head hqueue
  have htop := h.round.top
  have hbelow := h.round.below
  have hlast := h.round.last
  rw [hstack] at htop hbelow hlast
  have hbelow' : ∀ m, ∀ f ∈ (Frame.drain round (batch + 1) m :: stack).tail, f.kept = [] :=
    fun _ => hbelow
  have hlast' : ∀ m b ms', Frame.drain 3 b ms' ∈ Frame.drain round (batch + 1) m :: stack →
      ms' = [] := by
    intro m b ms' hmem
    rcases List.mem_cons.mp hmem with heq | hmem
    · exact absurd (Frame.drain.inj heq).1.symm hround
    · exact hlast b ms' (List.mem_cons_of_mem _ hmem)
  have hnumbered : ∀ batch dropped, Numbered { a with queue, batch, dropped } := fun _ _ =>
    ⟨h.numbered.owed_lt, fun e' he' => h.numbered.queue_lt e' (ha ▸ List.mem_cons_of_mem _ he'),
      h.numbered.entry_lt, h.numbered.entry_not_owed, h.numbered.entry_inj⟩
  unfold Account.pop
  rw [ha]
  dsimp only
  by_cases hconn : w.conn.state = .connected
  · rw [if_pos hconn, if_pos hconn]
    exact ⟨⟨hrest, h.sync.idle, h.sync.busy, h.sync.pushing⟩, hnumbered _ _,
      ⟨by simpa [topKept, Frame.kept, hmsg] using htop, hbelow' _, hlast' _, fun _ => hconn⟩,
      h.encoded⟩
  · rw [if_neg hconn, if_neg hconn]
    exact ⟨⟨hrest, h.sync.idle, h.sync.busy, h.sync.pushing⟩, hnumbered _ _,
      ⟨htop, hbelow' _, hlast' _, h.round.connected⟩, h.encoded⟩

/-- The round of a drain ends with its messages encoded, or with the connection closed: no
    message is in a round while the connection rejects messages. -/
theorem endRound_eq {w : World} {a : Account} (h : Batching w a) :
    a.endRound crc w = { a with
      encoded := if Account.encodes crc w a.batch then a.encoded ++ a.batch else a.encoded
      batch := [] } := by
  unfold Account.endRound
  by_cases he : Account.encodes crc w a.batch = true
  · simp [he]
  · by_cases hr : w.conn.rejects = true
    · have hnil : a.batch = [] := by
        by_contra hne
        have hc : w.conn.state = .connected := h.connected hne
        simp [TcpConnection.rejects, hc] at hr
      simp [hr, hnil]
    · simp [he, hr]

/-- A round ends. -/
theorem endRound_tracks {x : Tracked} {tr : List Event} (h : Tracks crc x tr)
    {round batch : Nat} {ms : List AbstractProtocol} {stack : List Frame}
    (hstack : x.world.stack = .drain round batch ms :: stack) :
    Tracks crc ⟨((({ x.world with stack } : World).push
        [.drain (round + 1) 0 []]).sendInLoopBatch crc ms).1, x.account.endRound crc x.world⟩
      (tr ++ ((({ x.world with stack } : World).push
        [.drain (round + 1) 0 []]).sendInLoopBatch crc ms).2) := by
  obtain ⟨w, a⟩ := x
  have hms : ms = a.batch.map Sent.message := by
    have htop := h.round.top
    rw [hstack] at htop
    exact htop
  have hbelow : ∀ f ∈ stack, f.kept = [] := by
    have hbelow := h.round.below
    rw [hstack] at hbelow
    exact hbelow
  have hb : Batches crc _ _ ms _ := sendInLoopBatch_batches
    (({ w with stack } : World).push [.drain (round + 1) 0 []]) ms
  obtain ⟨fs, hfs, hkept⟩ := hb.stack
  have hnew : ∀ f ∈ ((({ w with stack } : World).push [.drain (round + 1) 0 []]).sendInLoopBatch
      crc ms).1.stack, f.kept = [] := by
    intro f hf
    rw [hfs] at hf
    rcases List.mem_append.mp hf with hf | hf
    · exact hkept f hf
    · rcases List.mem_cons.mp hf with rfl | hf
      · rfl
      · exact hbelow f hf
  rw [endRound_eq h.round]
  refine ⟨⟨?_, fun t ht => ?_, fun t ht => ?_, fun t m e ht he => ?_⟩,
    ⟨h.numbered.owed_lt, h.numbered.queue_lt, h.numbered.entry_lt, h.numbered.entry_not_owed,
      h.numbered.entry_inj⟩, round_of_stack hnew rfl, ?_⟩
  · rw [hb.queue]
    exact h.sync.queue
  · exact h.sync.idle t (hb.senders ▸ ht)
  · exact h.sync.busy t (hb.senders ▸ ht)
  · exact h.sync.pushing t m e (hb.senders ▸ ht) he
  · have hes : encodedMessages ((({ w with stack } : World).push
        [.drain (round + 1) 0 []]).sendInLoopBatch crc ms).2 =
        if Account.encodes crc w a.batch then sealedAll crc ms else [] := by
      rw [hms] at hb ⊢
      exact hb.encoded
    rw [encodedMessages_append, hes, h.encoded]
    dsimp only
    split
    · rw [List.map_append, sealedAll_append, hms]
    · rw [List.append_nil]

/-- One step of `drainWriteQueue` at its `pop`. -/
theorem drain_tracks {x : Tracked} {tr : List Event} (h : Tracks crc x tr) {round batch : Nat}
    {ms : List AbstractProtocol} {stack : List Frame} {sees : Bool}
    (hstack : x.world.stack = .drain round batch ms :: stack) :
    Tracks crc ⟨(({ x.world with stack } : World).drain crc round batch ms sees).1,
      x.account.drain crc x.world round batch sees⟩
      (tr ++ (({ x.world with stack } : World).drain crc round batch ms sees).2) := by
  unfold World.drain Account.drain
  by_cases hround : round = 3
  · subst hround
    rw [if_pos rfl, if_pos rfl]
    obtain rfl : ms = [] := h.round.last batch ms (hstack ▸ List.mem_cons_self)
    obtain ⟨hbatch, hkept⟩ := h.round.nothing (by rw [hstack]; rfl)
    refine h.aside rfl rfl (fun f hf => ?_) hbatch rfl
    rcases List.mem_cons.mp hf with rfl | hf
    · rfl
    · exact hkept f (hstack ▸ List.mem_cons_of_mem _ hf)
  · rw [if_neg hround, if_neg hround]
    cases hpop : (if batch < 256 then MpscQueue.pop x.world.conn.writeQueue sees else none) with
    | none => exact endRound_tracks h hstack
    | some r =>
      obtain ⟨node, nodes⟩ := r
      obtain ⟨-, hpop'⟩ := Option.ite_none_right_eq_some.mp hpop
      rw [List.append_nil]
      exact pop_tracks h hstack hround (pop_eq_some hpop')

/-! ## Sends on other threads -/

section Foreign

variable {x : Tracked} {tr : List Event} (h : Tracks crc x tr) {t : ThreadId}

include h

/-- Another thread changes fields that the account does not speak of. -/
theorem Tracks.other {w' : World} (hqueue : w'.conn.writeQueue = x.world.conn.writeQueue)
    (hstate : w'.conn.state = x.world.conn.state) (hstack : w'.stack = x.world.stack)
    (hsenders : w'.senders = x.world.senders) : Tracks crc ⟨w', x.account⟩ tr where
  sync := ⟨by rw [hqueue, h.sync.queue], fun t ht => h.sync.idle t (hsenders ▸ ht),
    fun t ht => h.sync.busy t (hsenders ▸ ht), fun t m e ht => h.sync.pushing t m e (hsenders ▸ ht)⟩
  numbered := h.numbered
  round := ⟨hstack ▸ h.round.top, fun f hf => h.round.below f (hstack ▸ hf),
    fun b ms hmem => h.round.last b ms (hstack ▸ hmem),
    fun hne => hstate.trans (h.round.connected hne)⟩
  encoded := h.encoded

/-- A thread passes the check of `send`. -/
theorem enter_tracks (ht : x.world.senders t = .idle) (message : AbstractProtocol) :
    Tracks crc ⟨x.world.setSender t (.pushing message), x.account.enter t message⟩ tr := by
  obtain ⟨w, a⟩ := x
  have hother : ∀ t' e, (a.enter t message).entry t' = some e →
      (t' = t ∧ e = ⟨a.next, message⟩) ∨ (t' ≠ t ∧ a.entry t' = some e) := by
    intro t' e he
    rw [entry_enter] at he
    split at he
    · rename_i heq
      exact Or.inl ⟨heq.symm, (Option.some.inj he).symm⟩
    · rename_i hne
      exact Or.inr ⟨Ne.symm hne, he⟩
  refine ⟨⟨h.sync.queue, fun t' hi => ?_, fun t' hi => ?_, fun t' m e hm he => ?_⟩,
    ⟨fun e he => Nat.lt_succ_of_lt (h.numbered.owed_lt e he),
      fun e he => Nat.lt_succ_of_lt (h.numbered.queue_lt e he), fun t' e he => ?_,
      fun t' e he hmem => ?_, fun t₁ t₂ e h₁ h₂ => ?_⟩,
    ⟨h.round.top, h.round.below, h.round.last, h.round.connected⟩, h.encoded⟩
  · by_cases heq : t' = t
    · subst heq
      simp [World.setSender] at hi
    · rw [entry_enter, if_neg (Ne.symm heq)]
      exact h.sync.idle t' (by simpa [World.setSender, heq] using hi)
  · by_cases heq : t' = t
    · subst heq
      exact ⟨_, by rw [entry_enter, if_pos rfl]⟩
    · rw [entry_enter, if_neg (Ne.symm heq)]
      exact h.sync.busy t' (by simpa [World.setSender, heq] using hi)
  · rcases hother t' e he with ⟨rfl, rfl⟩ | ⟨hne, he⟩
    · simpa [World.setSender] using hm
    · exact h.sync.pushing t' m e (by simpa [World.setSender, hne] using hm) he
  · rcases hother t' e he with ⟨-, rfl⟩ | ⟨-, he⟩
    · exact Nat.lt_succ_self _
    · exact Nat.lt_succ_of_lt (h.numbered.entry_lt t' e he)
  · rcases hother t' e he with ⟨-, rfl⟩ | ⟨-, he⟩
    · exact absurd (h.numbered.owed_lt _ hmem) (Nat.lt_irrefl _)
    · exact h.numbered.entry_not_owed t' e he hmem
  · rcases hother t₁ e h₁ with ⟨hn₁, he₁⟩ | ⟨-, he₁⟩ <;>
      rcases hother t₂ e h₂ with ⟨hn₂, he₂⟩ | ⟨-, he₂⟩
    · rw [hn₁, hn₂]
    · rw [he₁] at he₂
      exact absurd (h.numbered.entry_lt t₂ _ he₂) (Nat.lt_irrefl _)
    · rw [he₂] at he₁
      exact absurd (h.numbered.entry_lt t₁ _ he₁) (Nat.lt_irrefl _)
    · exact h.numbered.entry_inj t₁ t₂ e he₁ he₂

/-- The exchange of `push`: the message takes its place in the queue. -/
theorem push_tracks {message : AbstractProtocol} (ht : x.world.senders t = .pushing message) :
    Tracks crc ⟨({ x.world with conn := { x.world.conn with
      writeQueue := x.world.conn.writeQueue ++ [(⟨t, message, false⟩ : Node)] } } :
        World).setSender t .linking, x.account.push t⟩ tr := by
  obtain ⟨w, a⟩ := x
  have hbusy : w.senders t ≠ .idle := fun hi => by simp [hi] at ht
  obtain ⟨e, he⟩ := h.sync.busy t hbusy
  have hmsg : e.message = message := h.sync.pushing t message e ht he
  have hpush : a.push t = { a with queue := a.queue ++ [e] } := by
    simp [Account.push, he]
  rw [hpush]
  refine ⟨⟨?_, fun t' hi => ?_, fun t' hi => ?_, fun t' m e' hm he' => ?_⟩,
    ⟨h.numbered.owed_lt, fun e' he' => ?_, h.numbered.entry_lt, h.numbered.entry_not_owed,
      h.numbered.entry_inj⟩, ⟨h.round.top, h.round.below, h.round.last, h.round.connected⟩,
    h.encoded⟩
  · simp [World.setSender, h.sync.queue, hmsg]
  · by_cases heq : t' = t
    · subst heq
      simp [World.setSender] at hi
    · exact h.sync.idle t' (by simpa [World.setSender, heq] using hi)
  · by_cases heq : t' = t
    · subst heq
      exact ⟨e, he⟩
    · exact h.sync.busy t' (by simpa [World.setSender, heq] using hi)
  · by_cases heq : t' = t
    · subst heq
      simp [World.setSender] at hm
    · exact h.sync.pushing t' m e' (by simpa [World.setSender, heq] using hm) he'
  · rcases List.mem_append.mp he' with he' | he'
    · exact h.numbered.queue_lt e' he'
    · rw [List.mem_singleton.mp he']
      exact h.numbered.entry_lt t e he

/-- A thread goes on behind the exchange. -/
theorem goOn_tracks {w' : World} {sender : Sender}
    (hqueue : w'.conn.writeQueue.map Node.message = x.world.conn.writeQueue.map Node.message)
    (hstate : w'.conn.state = x.world.conn.state) (hstack : w'.stack = x.world.stack)
    (hsenders : w'.senders = x.world.senders) (ht : x.world.senders t ≠ .idle)
    (hs : sender ≠ .idle) (hsp : ∀ m, sender ≠ .pushing m) :
    Tracks crc ⟨w'.setSender t sender, x.account⟩ tr where
  sync := by
    refine ⟨h.sync.queue.trans hqueue.symm, fun t' hi => ?_, fun t' hi => ?_,
      fun t' m e hm he => ?_⟩
    · by_cases heq : t' = t
      · subst heq
        exact absurd (by simpa [World.setSender] using hi) hs
      · exact h.sync.idle t' (by simpa [World.setSender, heq, hsenders] using hi)
    · by_cases heq : t' = t
      · subst heq
        exact h.sync.busy t' ht
      · exact h.sync.busy t' (by simpa [World.setSender, heq, hsenders] using hi)
    · by_cases heq : t' = t
      · subst heq
        exact absurd (by simpa [World.setSender] using hm) (hsp m)
      · exact h.sync.pushing t' m e (by simpa [World.setSender, heq, hsenders] using hm) he
  numbered := h.numbered
  round := ⟨hstack ▸ h.round.top, fun f hf => h.round.below f (hstack ▸ hf),
    fun b ms hmem => h.round.last b ms (hstack ▸ hmem),
    fun hne => hstate.trans (h.round.connected hne)⟩
  encoded := h.encoded

end Foreign

/-- The message of the thread that leaves goes, and is owed unless `shutdown` was called. -/
theorem leave_eq {a : Account} {t : ThreadId} {e : Sent} (he : a.entry t = some e) :
    a.leave t = { a with
      sending := a.sending.filter fun p => p.1 ≠ t
      owed := if a.shut then a.owed else a.owed ++ [e] } := by
  simp [Account.leave, he, accept_eq]

theorem leave_entry {a : Account} {t : ThreadId} {e : Sent} (he : a.entry t = some e)
    (t' : ThreadId) : (a.leave t).entry t' = if t' = t then none else a.entry t' := by
  rw [leave_eq he]
  exact entry_filter a t t'

theorem mem_leave_owed {a : Account} {t : ThreadId} {e : Sent} (he : a.entry t = some e)
    {e' : Sent} : e' ∈ (a.leave t).owed ↔ e' ∈ a.owed ∨ (a.shut = false ∧ e' = e) := by
  rw [leave_eq he]
  cases hshut : a.shut <;> simp

theorem leave_entry_some {a : Account} {t t' : ThreadId} {e e' : Sent}
    (he : a.entry t = some e) (he' : (a.leave t).entry t' = some e') :
    t' ≠ t ∧ a.entry t' = some e' := by
  rw [leave_entry he] at he'
  split at he'
  · exact absurd he' (by simp)
  · rename_i hne
    exact ⟨hne, he'⟩

/-- `send` returns on another thread. -/
theorem leave_tracks {x : Tracked} {tr : List Event} (h : Tracks crc x tr) {t : ThreadId}
    {w' : World} (hqueue : w'.conn.writeQueue = x.world.conn.writeQueue)
    (hstate : w'.conn.state = x.world.conn.state) (hstack : w'.stack = x.world.stack)
    (hsenders : w'.senders = x.world.senders) (ht : x.world.senders t ≠ .idle) :
    Tracks crc ⟨w'.setSender t .idle, x.account.leave t⟩ tr := by
  obtain ⟨w, a⟩ := x
  obtain ⟨e, he⟩ := h.sync.busy t ht
  refine ⟨⟨?_, fun t' hi => ?_, fun t' hi => ?_, fun t' m e' hm he' => ?_⟩,
    ⟨fun e' he' => ?_, fun e' he' => ?_, fun t' e' he' => ?_, fun t' e' he' hmem => ?_,
      fun t₁ t₂ e' h₁ h₂ => ?_⟩, ?_, ?_⟩
  · rw [leave_eq he]
    exact h.sync.queue.trans (congrArg _ hqueue.symm)
  · rw [leave_entry he]
    split
    · rfl
    · rename_i hne
      exact h.sync.idle t' (by simpa [World.setSender, hne, hsenders] using hi)
  · have hne : t' ≠ t := by
      rintro rfl
      simp [World.setSender] at hi
    rw [leave_entry he, if_neg hne]
    exact h.sync.busy t' (by simpa [World.setSender, hne, hsenders] using hi)
  · obtain ⟨hne, he'⟩ := leave_entry_some he he'
    exact h.sync.pushing t' m e' (by simpa [World.setSender, hne, hsenders] using hm) he'
  · have hnext : (a.leave t).next = a.next := by rw [leave_eq he]
    rw [hnext]
    rcases (mem_leave_owed he).mp he' with he' | ⟨-, rfl⟩
    · exact h.numbered.owed_lt e' he'
    · exact h.numbered.entry_lt t e' he
  · rw [leave_eq he] at he' ⊢
    exact h.numbered.queue_lt e' he'
  · have hnext : (a.leave t).next = a.next := by rw [leave_eq he]
    rw [hnext]
    exact h.numbered.entry_lt t' e' (leave_entry_some he he').2
  · obtain ⟨hne, he'⟩ := leave_entry_some he he'
    rcases (mem_leave_owed he).mp hmem with hmem | ⟨-, rfl⟩
    · exact h.numbered.entry_not_owed t' e' he' hmem
    · exact hne (h.numbered.entry_inj t' t e' he' he)
  · exact h.numbered.entry_inj t₁ t₂ e' (leave_entry_some he h₁).2 (leave_entry_some he h₂).2
  · rw [leave_eq he]
    exact ⟨hstack ▸ h.round.top, fun f hf => h.round.below f (hstack ▸ hf),
      fun b ms hmem => h.round.last b ms (hstack ▸ hmem),
      fun hne => hstate.trans (h.round.connected hne)⟩
  · rw [leave_eq he]
    exact h.encoded

/-! ## Steps -/

/-- The step is a drain that pops a message. -/
def pops (w : World) (l : Label) : Bool :=
  match l, w.stack with
  | .resume _ sees, .drain round batch _ :: _ =>
    round ≠ 3 && batch < 256 && (MpscQueue.pop w.conn.writeQueue sees).isSome
  | _, _ => false

/-- The step is a drain that ends a round. -/
def ends (w : World) (l : Label) : Bool :=
  match l, w.stack with
  | .resume _ sees, .drain round batch _ :: _ =>
    round ≠ 3 && !(batch < 256 && (MpscQueue.pop w.conn.writeQueue sees).isSome)
  | _, _ => false

/-- What a step does to the account and to the threads in `send`. -/
inductive Moves (crc : Bytes → UInt32) (l : Label) (w w' : World) (a : Account) :
    Account → Prop where
  | aside (hsenders : w'.senders = w.senders) : Moves crc l w w' a a
  | shut (hsenders : w'.senders = w.senders) : Moves crc l w w' a { a with shut := true }
  | sent (message : AbstractProtocol) (hsenders : w'.senders = w.senders)
      (hrej : w.conn.rejects = false)
      (hfailed : (encode crc [message] w.conn.outBuffer).1 = false → w'.conn.state = .closed)
      (hl : l = .call (.send (some message))) : Moves crc l w w' a (a.sendInLoop crc w message)
  | popped {e : Sent} {queue : List Sent} (hqueue : a.queue = e :: queue)
      (hpops : pops w l = true) (hsenders : w'.senders = w.senders)
      (hstate : w'.conn.state = w.conn.state) : Moves crc l w w' a (a.pop w)
  | ended (hends : ends w l = true) (hsenders : w'.senders = w.senders)
      (hround : Batching w a)
      (hfailed : w.conn.rejects = false → Account.encodes crc w a.batch = false →
        w'.conn.state = .closed) : Moves crc l w w' a (a.endRound crc w)
  | entered (t : ThreadId) (message : AbstractProtocol) (hentry : a.entry t = none)
      (hsenders : w'.senders = Function.update w.senders t (.pushing message))
      (hstate : w'.conn.state = w.conn.state) (hl : l = .foreign t (.send (some message)))
      (hrej : w.conn.rejects = false) : Moves crc l w w' a (a.enter t message)
  | pushed {t : ThreadId} {e : Sent} (hentry : a.entry t = some e)
      (hsenders : w'.senders = Function.update w.senders t .linking)
      (hstate : w'.conn.state = w.conn.state) (hfrom : ∃ m, w.senders t = .pushing m) :
      Moves crc l w w' a { a with queue := a.queue ++ [e] }
  | went {t : ThreadId} {sender : Sender} (hfrom : ∀ m, w.senders t ≠ .pushing m)
      (hto : ∀ m, sender ≠ .pushing m)
      (hsenders : w'.senders = Function.update w.senders t sender)
      (hstate : w'.conn.state = w.conn.state) : Moves crc l w w' a a
  | left {t : ThreadId} {e : Sent} (hentry : a.entry t = some e)
      (hfrom : ∀ m, w.senders t ≠ .pushing m)
      (hsenders : w'.senders = Function.update w.senders t .idle)
      (hstate : w'.conn.state = w.conn.state) : Moves crc l w w' a (a.leave t)

/-- A step that is tracked, and what it does. -/
structure Step (crc : Bytes → UInt32) (l : Label) (x x' : Tracked) (tr : List Event) : Prop where
  tracks : Tracks crc x' tr
  moves : Moves crc l x.world x'.world x.account x'.account

/-- Taking the top frame, which keeps nothing, leaves a stack that keeps nothing. -/
theorem step_aside {x : Tracked} {tr : List Event} {l : Label} (h : Tracks crc x tr) (w₀ : World)
    {w' : World} {es : List Event} (hqueue : w₀.conn.writeQueue = x.world.conn.writeQueue)
    (hsenders : w₀.senders = x.world.senders) (hstack : ∀ f ∈ w₀.stack, f ∈ x.world.stack)
    (htop : topKept x.world.stack = []) (haside : Aside w₀ w' es) :
    Step crc l x ⟨w', x.account⟩ (tr ++ es) := by
  obtain ⟨hbatch, hkept⟩ := h.round.nothing htop
  obtain ⟨fs, hfs, hnew⟩ := haside.stack
  refine ⟨h.aside (haside.queue.trans hqueue) (haside.senders.trans hsenders) (fun f hf => ?_)
    hbatch haside.encoded, .aside (haside.senders.trans hsenders)⟩
  rw [hfs] at hf
  exact (List.mem_append.mp hf).elim (hnew f) fun hf => hkept f (hstack f hf)

theorem call_tracks {x : Tracked} {tr : List Event} (h : Tracks crc x tr) (c : Call)
    (htop : topKept x.world.stack = []) :
    Step crc (.call c) x ⟨(x.world.call crc c).1, x.account.after crc x.world (.call c)⟩
      (tr ++ (x.world.call crc c).2) := by
  have haside : ∀ {w' : World} {es : List Event}, Aside x.world w' es →
      Step crc (.call c) x ⟨w', x.account⟩ (tr ++ es) := fun ha =>
    step_aside h _ rfl rfl (fun _ hf => hf) htop ha
  cases c with
  | send message =>
    cases message with
    | none => exact haside (.refl _)
    | some message =>
      simp only [World.call, Account.after]
      cases hrej : x.world.conn.rejects with
      | true =>
        simp only [if_true]
        exact haside (.refl _)
      | false =>
        simp only [Bool.false_eq_true, if_false]
        have hb : Batches crc x.world _ [message] _ := sendInLoopBatch_batches x.world [message]
        exact ⟨sendInLoop_tracks h htop, .sent message hb.senders hrej (hb.failed hrej) rfl⟩
  | shutdown =>
    have hshut := shutdownInLoop_aside x.world
    exact ⟨(haside hshut).tracks.setShut, .shut hshut.senders⟩
  | connectEstablished => exact haside (connectEstablished_aside _)
  | connectInProgress cb => exact haside (connectInProgress_aside _ cb)
  | connectDestroyed => exact haside (close_aside _ .destroyed)
  | incrInFlight | decrInFlight | setDirectOutputFlush _ =>
    exact haside (aside_of_same rfl rfl rfl rfl (List.Subset.refl _) rfl)

/-- One step of `drainWriteQueue` at its `pop`. -/
theorem drain_moves {x : Tracked} {tr : List Event} (h : Tracks crc x tr) {round batch : Nat}
    {ms : List AbstractProtocol} {stack : List Frame} {results : List (Except Errno Nat)}
    {sees : Bool} (hstack : x.world.stack = .drain round batch ms :: stack) :
    Moves crc (.resume results sees) x.world
      (({ x.world with stack } : World).drain crc round batch ms sees).1 x.account
      (x.account.drain crc x.world round batch sees) := by
  unfold World.drain Account.drain
  by_cases hround : round = 3
  · rw [if_pos hround, if_pos hround]
    exact .aside rfl
  · rw [if_neg hround, if_neg hround]
    cases hpop : (if batch < 256 then MpscQueue.pop x.world.conn.writeQueue sees else none) with
    | none =>
      have hends : ends x.world (.resume results sees) = true := by
        have hnot : batch < 256 → MpscQueue.pop x.world.conn.writeQueue sees = none := fun hlt =>
          (if_pos hlt).symm.trans hpop
        simp only [ends, hstack]
        by_cases hlt : batch < 256
        · simp [hround, hnot hlt]
        · simp [hround, hlt]
      have htop := h.round.top
      rw [hstack] at htop
      have hms : ms = x.account.batch.map Sent.message := htop
      subst hms
      have hb : Batches crc _ _ _ _ := sendInLoopBatch_batches
        (({ x.world with stack } : World).push [.drain (round + 1) 0 []])
        (x.account.batch.map Sent.message)
      refine .ended hends hb.senders h.round fun hrej henc => hb.failed hrej ?_
      rw [Account.encodes, hrej] at henc
      simpa [World.push] using henc
    | some r =>
      obtain ⟨node, nodes⟩ := r
      obtain ⟨hlt, hpop'⟩ := Option.ite_none_right_eq_some.mp hpop
      obtain ⟨e, queue, ha, -, -⟩ := h.sync.head (pop_eq_some hpop')
      exact .popped ha (by simp [pops, hstack, hround, hlt, hpop']) rfl rfl

/-- The account does not change where the top frame is not of a drain. -/
theorem after_resume {w : World} {a : Account} {frame : Frame} {stack : List Frame}
    (hstack : w.stack = frame :: stack) (hnot : ∀ r b ms, frame ≠ .drain r b ms)
    (results : List (Except Errno Nat)) (sees : Bool) :
    a.after crc w (.resume results sees) = a := by
  simp only [Account.after, hstack]
  split
  · rename_i heq
    obtain ⟨rfl, -⟩ := List.cons.inj heq
    exact absurd rfl (hnot _ _ _)
  · rfl

/-- One step of another thread. -/
theorem foreign_tracks {x : Tracked} {tr : List Event} (h : Tracks crc x tr) {t : ThreadId}
    {f : Foreign} {w' : World} (hs : x.world.foreign t (x.world.senders t) f = some w') :
    Step crc (.foreign t f) x ⟨w', x.account.foreign x.world t (x.world.senders t) f⟩ tr := by
  generalize ht : x.world.senders t = sender at hs ⊢
  cases foreignSteps_of_foreign hs with
  | ignored => exact ⟨h, .aside rfl⟩
  | rejected message hrej =>
    rw [Account.foreign, if_pos hrej]
    exact ⟨h, .aside rfl⟩
  | entered message hrej =>
    rw [Account.foreign, if_neg (by simp [hrej])]
    exact ⟨enter_tracks h ht message, .entered t message (h.sync.idle t ht) rfl rfl rfl hrej⟩
  | shutdown =>
    have hother : Tracks crc
        ⟨{ x.world with tasks := x.world.tasks ++ [.shutdown] }, x.account⟩ tr :=
      h.other rfl rfl rfl rfl
    exact ⟨hother.setShut, .shut rfl⟩
  | incrInFlight | decrInFlight => exact ⟨h.other rfl rfl rfl rfl, .aside rfl⟩
  | pushed message =>
    obtain ⟨e, he⟩ := h.sync.busy t (by simp [ht])
    have hpush : x.account.foreign x.world t (.pushing message) .goOn =
        { x.account with queue := x.account.queue ++ [e] } := by
      simp [Account.foreign, Account.push, he]
    have htracks := push_tracks h ht
    refine ⟨htracks, ?_⟩
    rw [hpush]
    exact .pushed he rfl rfl ⟨message, ht⟩
  | linked =>
    refine ⟨goOn_tracks h ?_ rfl rfl rfl (by simp [ht]) (by simp) (by simp),
      .went (by simp [ht]) (by simp) rfl rfl⟩
    rw [List.map_map]
    refine List.map_congr_left fun node _ => ?_
    simp only [Function.comp_apply, World.link]
    split <;> rfl
  | flagSet hflag =>
    obtain ⟨e, he⟩ := h.sync.busy t (by simp [ht])
    rw [Account.foreign, if_pos hflag]
    exact ⟨leave_tracks h rfl rfl rfl rfl (by simp [ht]), .left he (by simp [ht]) rfl rfl⟩
  | armed hflag =>
    rw [Account.foreign, if_neg (by simp [hflag])]
    exact ⟨goOn_tracks h rfl rfl rfl rfl (by simp [ht]) (by simp) (by simp),
      .went (by simp [ht]) (by simp) rfl rfl⟩
  | queued =>
    obtain ⟨e, he⟩ := h.sync.busy t (by simp [ht])
    exact ⟨leave_tracks h rfl rfl rfl rfl (by simp [ht]), .left he (by simp [ht]) rfl rfl⟩

/-- Every step is tracked, and does one of the things of `Moves`. -/
theorem step_tracks {x x' : Tracked} {tr : List Event} {l : Label} {es : List Event}
    (h : Tracks crc x tr) (hs : x.step crc l = some (x', es)) : Step crc l x x' (tr ++ es) := by
  obtain ⟨hw, ha⟩ := x.step_world crc hs
  obtain ⟨w', a'⟩ := x'
  dsimp only at hw ha
  subst ha
  cases acts_of_step hw with
  | read hstack hcb hread =>
    exact step_aside h _ rfl rfl (fun _ hf => hf) (topKept_of_idle hstack) (handleRead_aside hread)
  | unread | unwritten | unfailed =>
    rw [List.append_nil]
    exact ⟨h, .aside rfl⟩
  | write soError hstack hcb =>
    exact step_aside h _ rfl rfl (fun _ hf => hf) (topKept_of_idle hstack) (handleWrite_aside _)
  | finishWrite soError hstack hcb | finishError soError hstack hcb =>
    exact step_aside h _ rfl rfl (fun _ hf => hf) (topKept_of_idle hstack)
      (finish_aside _ _ soError)
  | fail soError hstack hcb =>
    exact step_aside h _ rfl rfl (fun _ hf => hf) (topKept_of_idle hstack)
      (handleClose_aside _ .fdError)
  | @task task tasks hstack htasks =>
    exact step_aside h { x.world with tasks } rfl rfl (fun _ hf => hf) (topKept_of_idle hstack)
      (runTask_aside _ task)
  | call c huser =>
    refine call_tracks h c ?_
    unfold World.inUserCode at huser
    cases hst : x.world.stack with
    | nil => rfl
    | cons f stack =>
      obtain rfl : f = .user := by simpa [hst] using huser
      rfl
  | @returns stack hstack =>
    exact step_aside h { x.world with stack } rfl rfl
      (fun _ hf => hstack ▸ List.mem_cons_of_mem _ hf) (by rw [hstack]; rfl) (.refl _)
  | @resume results sees frame stack _ _ hstack hresume =>
    by_cases hdrain : ∃ r b ms, frame = .drain r b ms
    · obtain ⟨r, b, ms, rfl⟩ := hdrain
      obtain ⟨rfl, rfl⟩ := Prod.mk.inj (Option.some.inj hresume)
      simp only [Account.after, hstack]
      exact ⟨drain_tracks h hstack, drain_moves h hstack⟩
    · have hnot : ∀ r b ms, frame ≠ .drain r b ms := fun r b ms heq => hdrain ⟨r, b, ms, heq⟩
      rw [after_resume hstack hnot]
      exact step_aside h { x.world with stack } rfl rfl
        (fun _ hf => hstack ▸ List.mem_cons_of_mem _ hf)
        (by rw [hstack]; cases frame <;> first | rfl | exact absurd rfl (hnot _ _ _))
        (resume_aside hnot hresume)
  | foreign hforeign =>
    rw [List.append_nil]
    exact foreign_tracks h hforeign

theorem tracks_new {w : World} (hqueue : w.conn.writeQueue = []) (hstack : w.stack = [])
    (hsenders : ∀ t, w.senders t = .idle) : Tracks crc ⟨w, {}⟩ [] where
  sync := ⟨by simp [hqueue], fun _ _ => rfl, fun t hne => absurd (hsenders t) hne,
    fun _ _ _ _ he => absurd he (by simp [entry])⟩
  numbered := ⟨by simp, by simp, by simp [entry], by simp [entry], by simp [entry]⟩
  round := round_of_stack (by simp [hstack]) rfl
  encoded := rfl

/-! ## Messages that are watched -/

/-- The message is in the queue, in the round of a drain or encoded. -/
def Account.Holds (a : Account) (e : Sent) : Prop := e ∈ a.queue ∨ e ∈ a.batch ∨ e ∈ a.encoded

/-- What the account holds it goes on holding. -/
theorem Account.Holds.mono {a a' : Account} {e : Sent} (h : a.Holds e)
    (hqueue : ∀ e ∈ a.queue, a'.Holds e) (hbatch : ∀ e ∈ a.batch, a'.Holds e)
    (hencoded : ∀ e ∈ a.encoded, a'.Holds e) : a'.Holds e := by
  rcases h with he | he | he
  · exact hqueue e he
  · exact hbatch e he
  · exact hencoded e he

theorem sendInLoop_eq (w : World) (a : Account) (message : AbstractProtocol) :
    a.sendInLoop crc w message = { a with
      next := a.next + 1
      encoded := if encodes crc w [⟨a.next, message⟩] then a.encoded ++ [⟨a.next, message⟩]
        else a.encoded
      owed := if a.shut then a.owed else a.owed ++ [⟨a.next, message⟩] } := by
  rw [Account.sendInLoop, accept_eq]

theorem Account.Holds.sendInLoop {a : Account} {e : Sent} (h : a.Holds e) (w : World)
    (message : AbstractProtocol) : (a.sendInLoop crc w message).Holds e := by
  rw [sendInLoop_eq]
  refine h.mono (fun _ => Or.inl) (fun _ hm => Or.inr (Or.inl hm)) fun _ hm => ?_
  refine Or.inr (Or.inr ?_)
  dsimp only
  split
  · exact List.mem_append_left _ hm
  · exact hm

/-- The messages of `P` are at the exchange of their `push`, or the account holds them. -/
def Watched (P : Sent → Prop) (w : World) (a : Account) : Prop :=
  ∀ e, P e → (∃ t m, a.entry t = some e ∧ w.senders t = .pushing m) ∨ a.Holds e

/-- A watched message is lost only where a drain pops it outside `Connected`, or where its
    round cannot be encoded. -/
theorem Watched.moves {P : Sent → Prop} {l : Label} {w w' : World} {a a' : Account}
    (h : Watched P w a) (hm : Moves crc l w w' a a')
    (hpop : pops w l = true → ∀ e ∈ a.queue.head?, P e → w.conn.state = .connected)
    (hend : ends w l = true → ∀ e ∈ a.batch, P e → encodes crc w a.batch = true) :
    Watched P w' a' := by
  intro e he
  cases hm with
  | aside hsenders => exact (h e he).imp (fun ⟨t, m, ht, hp⟩ => ⟨t, m, ht, hsenders ▸ hp⟩) id
  | shut hsenders => exact (h e he).imp (fun ⟨t, m, ht, hp⟩ => ⟨t, m, ht, hsenders ▸ hp⟩) id
  | sent message hsenders hrej hfailed =>
    rcases h e he with ⟨t, m, ht, hp⟩ | hh
    · refine Or.inl ⟨t, m, ?_, hsenders ▸ hp⟩
      rw [sendInLoop_eq]
      exact ht
    · exact Or.inr (hh.sendInLoop w message)
  | popped hqueue hpops hsenders hstate =>
    rename_i e₀ queue
    have hconn : P e₀ → w.conn.state = .connected := hpop hpops e₀ (by simp [hqueue])
    unfold Account.pop
    rw [hqueue]
    dsimp only
    rcases h e he with ⟨t, m, ht, hp⟩ | hq | hb | hd
    · refine Or.inl ⟨t, m, ?_, hsenders ▸ hp⟩
      split <;> exact ht
    · rcases List.mem_cons.mp (hqueue ▸ hq) with rfl | hq
      · rw [if_pos (hconn he)]
        exact Or.inr (Or.inr (Or.inl (List.mem_append_right _ (List.mem_singleton_self _))))
      · split <;> exact Or.inr (Or.inl hq)
    · split
      · exact Or.inr (Or.inr (Or.inl (List.mem_append_left _ hb)))
      · exact Or.inr (Or.inr (Or.inl hb))
    · split <;> exact Or.inr (Or.inr (Or.inr hd))
  | ended hends hsenders hround hfailed =>
    rw [endRound_eq hround]
    rcases h e he with ⟨t, m, ht, hp⟩ | hq | hb | hd
    · exact Or.inl ⟨t, m, ht, hsenders ▸ hp⟩
    · exact Or.inr (Or.inl hq)
    · refine Or.inr (Or.inr (Or.inr ?_))
      dsimp only
      rw [if_pos (hend hends e hb he)]
      exact List.mem_append_right _ hb
    · refine Or.inr (Or.inr (Or.inr ?_))
      dsimp only
      split
      · exact List.mem_append_left _ hd
      · exact hd
  | entered t message hentry hsenders hstate =>
    rcases h e he with ⟨t', m, ht, hp⟩ | hh
    · have hne : t' ≠ t := by
        rintro rfl
        exact absurd (hentry.symm.trans ht) (by simp)
      refine Or.inl ⟨t', m, ?_, ?_⟩
      · rw [entry_enter, if_neg hne.symm]
        exact ht
      · rw [hsenders, Function.update_of_ne hne]
        exact hp
    · exact Or.inr hh
  | pushed hentry hsenders hstate hfrom =>
    rename_i t e₀
    rcases h e he with ⟨t', m, ht, hp⟩ | hh
    · by_cases hne : t' = t
      · subst hne
        obtain rfl := Option.some.inj (hentry.symm.trans ht)
        exact Or.inr (Or.inl (List.mem_append_right _ (List.mem_singleton_self _)))
      · refine Or.inl ⟨t', m, ht, ?_⟩
        rw [hsenders, Function.update_of_ne hne]
        exact hp
    · exact Or.inr (hh.mono (fun _ hm => Or.inl (List.mem_append_left _ hm))
        (fun _ hm => Or.inr (Or.inl hm)) fun _ hm => Or.inr (Or.inr hm))
  | went hfrom hto hsenders hstate =>
    rename_i t sender
    rcases h e he with ⟨t', m, ht, hp⟩ | hh
    · have hne : t' ≠ t := by
        rintro rfl
        exact hfrom m hp
      refine Or.inl ⟨t', m, ht, ?_⟩
      rw [hsenders, Function.update_of_ne hne]
      exact hp
    · exact Or.inr hh
  | left hentry hfrom hsenders hstate =>
    rename_i t e₀
    rcases h e he with ⟨t', m, ht, hp⟩ | hh
    · have hne : t' ≠ t := by
        rintro rfl
        exact hfrom m hp
      refine Or.inl ⟨t', m, ?_, ?_⟩
      · rw [leave_entry hentry, if_neg hne]
        exact ht
      · rw [hsenders, Function.update_of_ne hne]
        exact hp
    · rw [leave_eq hentry]
      exact Or.inr hh

end RocketRpc.Net
