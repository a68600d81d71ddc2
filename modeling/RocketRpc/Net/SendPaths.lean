import RocketRpc.Net.Lifecycle
import RocketRpc.Net.QueueAttended

/-
  The two ways of `send`: on the loop, and through `m_write_queue`.

  A log that runs beside a connection has every message that passes the state check of `send`,
  with the thread that sends it. What a thread has sent is under way behind that check in the
  order of its sends (`Logged`), and a step loses nothing of it (`step_flows`) unless the
  connection rejects messages from then on, or a drain pops a message of a connection that is
  not connected yet: there the drain keeps only what it pops in `Connected`, while `send` on the
  loop encodes. `send_paths_agree` is the result for runs, with the order of each thread.
-/

namespace RocketRpc.Net

open RocketRpc.Tcp RocketRpc.Coder Machine Account

variable {crc : Bytes → UInt32}

/-- A message that passed the state check of `send`; the loop's own thread is `none`. -/
structure Passed where
  origin : Option ThreadId
  sent : Sent
  deriving DecidableEq, Repr

/-- Who sends in a step, and what, where the state check lets it pass. -/
def Label.passes (w : World) : Label → Option (Option ThreadId × AbstractProtocol)
  | .call (.send (some message)) => if w.conn.rejects then none else some (none, message)
  | .foreign t (.send (some message)) => if w.conn.rejects then none else some (some t, message)
  | _ => none

/-- A connection with its account and the log of its sends. -/
structure Sending where
  tracked : Tracked
  log : List Passed := []

/-- The log behind a step. -/
def logged (log : List Passed) (next : Nat) (passes : Option (Option ThreadId × AbstractProtocol)) :
    List Passed :=
  log ++ passes.toList.map fun p => ⟨p.1, ⟨next, p.2⟩⟩

/-- What a thread has sent, in the order of its sends. -/
def sentBy (log : List Passed) (o : Option ThreadId) : List Sent :=
  (log.filter fun p => p.origin = o).map Passed.sent

/-- Those of the messages that a thread has sent. -/
def fromOrigin (log : List Passed) (o : Option ThreadId) (es : List Sent) : List Sent :=
  es.filter fun e => (⟨o, e⟩ : Passed) ∈ log

/-- The message of a thread that has passed the check and is at the exchange of its push. -/
def waiting (w : World) (a : Account) : Option ThreadId → List Sent
  | none => []
  | some t =>
    match w.senders t with
    | .pushing _ => (a.entry t).toList
    | _ => []

/-- What a thread has sent and nobody has dropped: encoded, in the round of a drain, in the
    queue, or about to be pushed. -/
def onTheWay (log : List Passed) (w : World) (a : Account) (o : Option ThreadId) : List Sent :=
  fromOrigin log o (a.encoded ++ (a.batch ++ a.queue)) ++ waiting w a o

namespace Sending

def world (x : Sending) : World := x.tracked.world

def account (x : Sending) : Account := x.tracked.account

def step (crc : Bytes → UInt32) (x : Sending) (l : Label) : Option (Sending × List Event) :=
  (x.tracked.step crc l).map fun r =>
    (⟨r.1, logged x.log x.account.next (l.passes x.world)⟩, r.2)

/-- The messages of a thread that were encoded. -/
def encodedFrom (x : Sending) (o : Option ThreadId) : List Sent :=
  fromOrigin x.log o x.account.encoded

theorem step_tracked {x x' : Sending} {l : Label} {es : List Event}
    (h : x.step crc l = some (x', es)) :
    x.tracked.step crc l = some (x'.tracked, es) ∧
      x'.log = logged x.log x.account.next (l.passes x.world) := by
  obtain ⟨⟨y, es'⟩, hy, heq⟩ := Option.map_eq_some_iff.mp h
  obtain ⟨rfl, rfl⟩ := Prod.mk.inj heq
  exact ⟨hy, rfl⟩

end Sending

/-- The condition on a step: a drain pops from a connection that was connected. -/
def Ready (x : Sending) (l : Label) : Prop :=
  pops x.world l = true → x.world.conn.state ≠ .notConnected

instance (x : Sending) : DecidablePred (Ready x) := fun _ =>
  inferInstanceAs (Decidable (_ → _))

/-! ## The log -/

/-- The log knows what is under way, and who sent it. -/
structure Logged (log : List Passed) (a : Account) : Prop where
  fresh : ∀ p ∈ log, p.sent.number < a.next
  single : ∀ o o' e, (⟨o, e⟩ : Passed) ∈ log → (⟨o', e⟩ : Passed) ∈ log → o = o'
  encoded : ∀ e ∈ a.encoded, ∃ o, (⟨o, e⟩ : Passed) ∈ log
  queue : ∀ e ∈ a.batch ++ a.queue, ∃ t, (⟨some t, e⟩ : Passed) ∈ log
  entry : ∀ t e, a.entry t = some e → (⟨some t, e⟩ : Passed) ∈ log

@[simp] theorem logged_none (log : List Passed) (n : Nat) : logged log n none = log := by
  simp [logged]

@[simp] theorem logged_some (log : List Passed) (n : Nat) (o : Option ThreadId)
    (message : AbstractProtocol) :
    logged log n (some (o, message)) = log ++ [⟨o, ⟨n, message⟩⟩] := rfl

theorem sentBy_append (log : List Passed) (p : Passed) (o : Option ThreadId) :
    sentBy (log ++ [p]) o = sentBy log o ++ if p.origin = o then [p.sent] else [] := by
  unfold sentBy
  rw [List.filter_append, List.map_append]
  by_cases h : p.origin = o <;> simp [h]

theorem fromOrigin_append (log : List Passed) (o : Option ThreadId) (es fs : List Sent) :
    fromOrigin log o (es ++ fs) = fromOrigin log o es ++ fromOrigin log o fs :=
  List.filter_append _ _

theorem fromOrigin_singleton (log : List Passed) (o : Option ThreadId) (e : Sent) :
    fromOrigin log o [e] = if (⟨o, e⟩ : Passed) ∈ log then [e] else [] := by
  unfold fromOrigin
  by_cases h : (⟨o, e⟩ : Passed) ∈ log <;> simp [h]

namespace Logged

variable {log : List Passed} {a : Account}

/-- The number of a message under way has been given. -/
theorem number_lt (h : Logged log a) {e : Sent} (he : e ∈ a.encoded ++ (a.batch ++ a.queue)) :
    e.number < a.next := by
  rcases List.mem_append.mp he with he | he
  · obtain ⟨o, ho⟩ := h.encoded e he
    exact h.fresh _ ho
  · obtain ⟨t, ht⟩ := h.queue e he
    exact h.fresh _ ht

/-- The next number is in no entry of the log. -/
theorem not_mem_next (h : Logged log a) (o : Option ThreadId) (message : AbstractProtocol) :
    (⟨o, ⟨a.next, message⟩⟩ : Passed) ∉ log :=
  fun hmem => absurd (h.fresh _ hmem) (Nat.lt_irrefl _)

/-- A new entry changes nothing for the messages under way. -/
theorem fromOrigin_fresh (h : Logged log a) (o o' : Option ThreadId) (message : AbstractProtocol)
    {es : List Sent} (hes : es ⊆ a.encoded ++ (a.batch ++ a.queue)) :
    fromOrigin (log ++ [⟨o', ⟨a.next, message⟩⟩]) o es = fromOrigin log o es := by
  refine List.filter_congr fun e he => ?_
  have hne : (⟨o, e⟩ : Passed) ≠ ⟨o', ⟨a.next, message⟩⟩ := by
    intro heq
    obtain ⟨-, rfl⟩ := Passed.mk.inj heq
    exact absurd (h.number_lt (hes he)) (Nat.lt_irrefl _)
  simp [hne]

/-- The loop has nothing in the queue. -/
theorem queue_foreign (h : Logged log a) : fromOrigin log none (a.batch ++ a.queue) = [] := by
  refine List.filter_eq_nil_iff.mpr fun e he => ?_
  obtain ⟨t, ht⟩ := h.queue e he
  have hnot : (⟨none, e⟩ : Passed) ∉ log := fun hmem =>
    absurd (h.single _ _ e hmem ht) (by simp)
  simpa using hnot

/-- An account that has no more under way. -/
theorem of_subset {a' : Account} (h : Logged log a) (hnext : a'.next = a.next)
    (hencoded : ∀ e ∈ a'.encoded, e ∈ a.encoded ++ (a.batch ++ a.queue))
    (hqueue : ∀ e ∈ a'.batch ++ a'.queue, e ∈ a.batch ++ a.queue ∨ ∃ t, a.entry t = some e)
    (hentry : ∀ t e, a'.entry t = some e → a.entry t = some e) : Logged log a' := by
  refine ⟨hnext ▸ h.fresh, h.single, fun e he => ?_, fun e he => ?_,
    fun t e he => h.entry t e (hentry t e he)⟩
  · rcases List.mem_append.mp (hencoded e he) with he | he
    · exact h.encoded e he
    · obtain ⟨t, ht⟩ := h.queue e he
      exact ⟨_, ht⟩
  · rcases hqueue e he with he | ⟨t, ht⟩
    · exact h.queue e he
    · exact ⟨t, h.entry t e ht⟩

/-- A message is sent: it is encoded or dropped on the loop, and the entry of its thread on
    another one. -/
theorem add {a' : Account} (h : Logged log a) (o : Option ThreadId) (message : AbstractProtocol)
    (hnext : a'.next = a.next + 1)
    (hencoded : ∀ e ∈ a'.encoded, e ∈ a.encoded ∨ e = ⟨a.next, message⟩)
    (hqueue : a'.batch ++ a'.queue = a.batch ++ a.queue)
    (hentry : ∀ t e, a'.entry t = some e →
      a.entry t = some e ∨ (o = some t ∧ e = ⟨a.next, message⟩)) :
    Logged (log ++ [⟨o, ⟨a.next, message⟩⟩]) a' := by
  have hold : ∀ p, p ∈ log → p ∈ log ++ [(⟨o, ⟨a.next, message⟩⟩ : Passed)] := fun p hp =>
    List.mem_append_left _ hp
  have hnew : (⟨o, ⟨a.next, message⟩⟩ : Passed) ∈
      log ++ [(⟨o, ⟨a.next, message⟩⟩ : Passed)] :=
    List.mem_append_right _ (List.mem_singleton_self _)
  refine ⟨fun p hp => ?_, fun o₁ o₂ e h₁ h₂ => ?_, fun e he => ?_, fun e he => ?_,
    fun t e he => ?_⟩
  · rw [hnext]
    rcases List.mem_append.mp hp with hp | hp
    · exact Nat.lt_succ_of_lt (h.fresh p hp)
    · rw [List.mem_singleton.mp hp]
      exact Nat.lt_succ_self _
  · rcases List.mem_append.mp h₁ with h₁ | h₁ <;> rcases List.mem_append.mp h₂ with h₂ | h₂
    · exact h.single o₁ o₂ e h₁ h₂
    · obtain ⟨-, rfl⟩ := Passed.mk.inj (List.mem_singleton.mp h₂)
      exact absurd h₁ (h.not_mem_next o₁ message)
    · obtain ⟨-, rfl⟩ := Passed.mk.inj (List.mem_singleton.mp h₁)
      exact absurd h₂ (h.not_mem_next o₂ message)
    · obtain ⟨rfl, -⟩ := Passed.mk.inj (List.mem_singleton.mp h₁)
      exact (Passed.mk.inj (List.mem_singleton.mp h₂)).1.symm
  · rcases hencoded e he with he | rfl
    · obtain ⟨o', ho'⟩ := h.encoded e he
      exact ⟨o', hold _ ho'⟩
    · exact ⟨o, hnew⟩
  · obtain ⟨t, ht⟩ := h.queue e (hqueue ▸ he)
    exact ⟨t, hold _ ht⟩
  · rcases hentry t e he with he | ⟨rfl, rfl⟩
    · exact hold _ (h.entry t e he)
    · exact hnew

end Logged

/-! ## What is under way -/

/-- A thread that is not at its exchange has nothing to push. -/
theorem waiting_nil {w : World} {a : Account} {t : ThreadId}
    (h : ∀ m, w.senders t ≠ .pushing m) : waiting w a (some t) = [] := by
  simp only [waiting]

theorem waiting_pushing {w : World} {a : Account} {t : ThreadId} {m : AbstractProtocol}
    {e : Sent} (h : w.senders t = .pushing m) (he : a.entry t = some e) :
    waiting w a (some t) = [e] := by
  simp [waiting, h, he]

theorem waiting_congr {w w' : World} {a a' : Account} {o : Option ThreadId}
    (h : ∀ t, o = some t → w'.senders t = w.senders t ∧ a'.entry t = a.entry t) :
    waiting w' a' o = waiting w a o := by
  cases o with
  | none => rfl
  | some t =>
    obtain ⟨hsender, hentry⟩ := h t rfl
    simp only [waiting, hsender, hentry]

/-- A thread goes from a place where it has nothing to push to another. -/
theorem waiting_went {w w' : World} {a a' : Account} {t : ThreadId} {sender : Sender}
    (hfrom : ∀ m, w.senders t ≠ .pushing m) (hto : ∀ m, sender ≠ .pushing m)
    (hsenders : w'.senders = Function.update w.senders t sender)
    (hentry : ∀ t', t' ≠ t → a'.entry t' = a.entry t') (o : Option ThreadId) :
    waiting w' a' o = waiting w a o := by
  by_cases ho : o = some t
  · subst ho
    rw [waiting_nil hfrom, waiting_nil]
    intro m
    rw [hsenders, Function.update_self]
    exact hto m
  · refine waiting_congr fun t' ht' => ?_
    have hne : t' ≠ t := fun heq => ho (heq ▸ ht')
    rw [hsenders, Function.update_of_ne hne]
    exact ⟨rfl, hentry t' hne⟩

/-- What a step does to the messages of each thread: those it adds to the log are under way
    behind the others, or the connection rejects messages behind the step. -/
inductive Flows (log log' : List Passed) (w w' : World) (a a' : Account) : Prop where
  | on (new : Option ThreadId → List Sent) (hsent : ∀ o, sentBy log' o = sentBy log o ++ new o)
      (hway : ∀ o, onTheWay log' w' a' o = onTheWay log w a o ++ new o)
  | shut (hsent : ∀ o, (sentBy log o).Sublist (sentBy log' o))
      (hway : ∀ o, (onTheWay log' w' a' o).Sublist (onTheWay log w a o))
      (hrej : w'.conn.rejects = true)

section Flows

variable {log : List Passed} {w w' : World} {a a' : Account}

theorem flows_same
    (hlists : a'.encoded ++ (a'.batch ++ a'.queue) = a.encoded ++ (a.batch ++ a.queue))
    (hwait : ∀ o, waiting w' a' o = waiting w a o) : Flows log log w w' a a' := by
  refine .on (fun _ => []) (fun o => (List.append_nil _).symm) fun o => ?_
  rw [List.append_nil, onTheWay, onTheWay, hlists, hwait o]

theorem flows_lost
    (hlists : (a'.encoded ++ (a'.batch ++ a'.queue)).Sublist (a.encoded ++ (a.batch ++ a.queue)))
    (hwait : ∀ o, waiting w' a' o = waiting w a o) (hrej : w'.conn.rejects = true) :
    Flows log log w w' a a' := by
  refine .shut (fun o => List.Sublist.refl _) (fun o => ?_) hrej
  rw [onTheWay, onTheWay, hwait o]
  exact (hlists.filter _).append_right _

/-- `send` on the loop. -/
theorem sent_flows (h : Logged log a) (message : AbstractProtocol)
    (hsenders : w'.senders = w.senders) (hrej : w.conn.rejects = false)
    (hfailed : (encode crc [message] w.conn.outBuffer).1 = false → w'.conn.state = .closed) :
    Flows log (log ++ [⟨none, ⟨a.next, message⟩⟩]) w w' a (a.sendInLoop crc w message) := by
  have hwait : ∀ o, waiting w' (a.sendInLoop crc w message) o = waiting w a o := fun o =>
    waiting_congr fun t _ => by
      rw [hsenders, sendInLoop_eq]
      exact ⟨rfl, rfl⟩
  have hold : ∀ o es, es ⊆ a.encoded ++ (a.batch ++ a.queue) →
      fromOrigin (log ++ [⟨none, ⟨a.next, message⟩⟩]) o es = fromOrigin log o es := fun o es hes =>
    h.fromOrigin_fresh o none message hes
  by_cases henc : encodes crc w [⟨a.next, message⟩] = true
  · refine .on (fun o => if none = o then [⟨a.next, message⟩] else [])
      (fun o => sentBy_append _ _ _) fun o => ?_
    have hnew : fromOrigin (log ++ [⟨none, ⟨a.next, message⟩⟩]) o [⟨a.next, message⟩] =
        if none = o then [⟨a.next, message⟩] else [] := by
      rw [fromOrigin_singleton]
      simp [h.not_mem_next, eq_comm]
    rw [onTheWay, onTheWay, hwait, sendInLoop_eq]
    simp only [henc, if_true]
    rw [fromOrigin_append _ _ (a.encoded ++ _), fromOrigin_append _ _ a.encoded [_], hnew,
      fromOrigin_append _ _ a.encoded, hold o _ (List.subset_append_left _ _),
      hold o _ (List.subset_append_right _ _)]
    by_cases ho : none = o
    · subst ho
      simp [h.queue_foreign, waiting]
    · simp [ho]
  · refine .shut (fun o => ?_) (fun o => ?_) ?_
    · rw [sentBy_append]
      exact List.sublist_append_left _ _
    · rw [onTheWay, onTheWay, hwait, sendInLoop_eq]
      simp only [henc, Bool.false_eq_true, if_false]
      rw [hold o _ (List.Subset.refl _)]
    · have hfail : (encode crc [message] w.conn.outBuffer).1 = false := by
        simpa [encodes, hrej] using henc
      simp [TcpConnection.rejects, hfailed hfail]

/-- A thread passes the check. -/
theorem entered_flows (h : Logged log a) (t : ThreadId) (message : AbstractProtocol)
    (hentry : a.entry t = none)
    (hsenders : w'.senders = Function.update w.senders t (.pushing message)) :
    Flows log (log ++ [⟨some t, ⟨a.next, message⟩⟩]) w w' a (a.enter t message) := by
  refine .on (fun o => if some t = o then [⟨a.next, message⟩] else [])
    (fun o => sentBy_append _ _ _) fun o => ?_
  have hold : fromOrigin (log ++ [⟨some t, ⟨a.next, message⟩⟩]) o
      (a.encoded ++ (a.batch ++ a.queue)) = fromOrigin log o (a.encoded ++ (a.batch ++ a.queue)) :=
    h.fromOrigin_fresh o (some t) message (List.Subset.refl _)
  have hwait : waiting w' (a.enter t message) o =
      waiting w a o ++ if some t = o then [⟨a.next, message⟩] else [] := by
    by_cases ho : some t = o
    · subst ho
      have hsender : w'.senders t = .pushing message := by
        rw [hsenders, Function.update_self]
      have hnone : waiting w a (some t) = [] := by
        simp only [waiting, hentry]
        split <;> rfl
      rw [waiting_pushing hsender (by rw [entry_enter, if_pos rfl]), hnone, if_pos rfl]
      rfl
    · rw [if_neg ho, List.append_nil]
      refine waiting_congr fun t' ht' => ?_
      have hne : t' ≠ t := by
        rintro rfl
        exact ho ht'.symm
      rw [hsenders, Function.update_of_ne hne, entry_enter, if_neg hne.symm]
      exact ⟨rfl, rfl⟩
  rw [onTheWay, onTheWay, hwait, ← List.append_assoc]
  exact congrArg (· ++ _ ++ _) hold

/-- The exchange of a push. -/
theorem pushed_flows (h : Logged log a) {t : ThreadId} {e : Sent} (hentry : a.entry t = some e)
    (hsenders : w'.senders = Function.update w.senders t .linking)
    (hfrom : ∃ m, w.senders t = .pushing m) :
    Flows log log w w' a { a with queue := a.queue ++ [e] } := by
  refine .on (fun _ => []) (fun o => (List.append_nil _).symm) fun o => ?_
  obtain ⟨m, hm⟩ := hfrom
  have hlog := h.entry t e hentry
  have hlists : fromOrigin log o (a.encoded ++ (a.batch ++ (a.queue ++ [e]))) =
      fromOrigin log o (a.encoded ++ (a.batch ++ a.queue)) ++ fromOrigin log o [e] := by
    rw [← fromOrigin_append, List.append_assoc, List.append_assoc]
  rw [List.append_nil, onTheWay, onTheWay]
  dsimp only
  rw [hlists, List.append_assoc, fromOrigin_singleton]
  by_cases ho : o = some t
  · subst ho
    have hgone : waiting w' { a with queue := a.queue ++ [e] } (some t) = [] :=
      waiting_nil fun m => by rw [hsenders, Function.update_self]; simp
    rw [if_pos hlog, hgone, waiting_pushing hm hentry, List.append_nil]
  · have hnot : (⟨o, e⟩ : Passed) ∉ log := fun hmem => ho (h.single _ _ e hmem hlog)
    rw [if_neg hnot, List.nil_append]
    congr 1
    refine waiting_congr fun t' ht' => ?_
    have hne : t' ≠ t := fun heq => ho (heq ▸ ht')
    rw [hsenders, Function.update_of_ne hne]
    exact ⟨rfl, rfl⟩

/-- A round of a drain ends. -/
theorem ended_flows (hround : Batching w a) (hsenders : w'.senders = w.senders)
    (hmono : w.conn.rejects = true → w'.conn.rejects = true)
    (hfailed : w.conn.rejects = false → encodes crc w a.batch = false →
      w'.conn.state = .closed) : Flows log log w w' a (a.endRound crc w) := by
  have hwait : ∀ o, waiting w' (a.endRound crc w) o = waiting w a o := fun o =>
    waiting_congr fun t _ => by
      rw [hsenders, endRound_eq hround]
      exact ⟨rfl, rfl⟩
  by_cases henc : encodes crc w a.batch = true
  · refine flows_same ?_ hwait
    rw [endRound_eq hround]
    simp [henc]
  · have henc : encodes crc w a.batch = false := by simpa using henc
    refine flows_lost ?_ hwait ?_
    · rw [endRound_eq hround]
      simp [henc]
    · cases hrej : w.conn.rejects with
      | true => exact hmono hrej
      | false => simp [TcpConnection.rejects, hfailed hrej henc]

end Flows

/-! ## Steps -/

/-- A drain that pops. -/
theorem pop_step {x x' : Tracked} {tr : List Event} {l : Label} {es : List Event}
    (h : Tracks crc x tr) (hpop : pops x.world l = true) (hs : x.step crc l = some (x', es)) :
    (∃ e queue, x.account.queue = e :: queue) ∧ x'.account = x.account.pop x.world ∧
      x'.world.senders = x.world.senders ∧ x'.world.conn.state = x.world.conn.state := by
  obtain ⟨hw, ha⟩ := x.step_world crc hs
  unfold pops at hpop
  split at hpop
  · rename_i results sees round batch ms stack hstack
    simp only [Bool.and_eq_true, decide_eq_true_eq] at hpop
    obtain ⟨⟨hround, hbatch⟩, hsome⟩ := hpop
    obtain ⟨⟨node, nodes⟩, hnode⟩ := Option.isSome_iff_exists.mp hsome
    obtain ⟨e, queue, hqueue, -, -⟩ := h.sync.head (pop_eq_some hnode)
    have hnode' : (if batch < 256 then MpscQueue.pop x.world.conn.writeQueue sees else none) =
        some (node, nodes) := (if_pos hbatch).trans hnode
    refine ⟨⟨e, queue, hqueue⟩, ?_, ?_⟩
    · rw [ha]
      simp only [Account.after, hstack, Account.drain, if_neg hround, hnode']
    · simp only [World.step, hstack, World.resume, World.drain, if_neg hround, hnode'] at hw
      obtain ⟨hw, -⟩ := Prod.mk.inj (Option.some.inj hw)
      rw [← hw]
      exact ⟨rfl, rfl⟩
  · exact absurd hpop (by simp)

theorem pop_next (a : Account) (w : World) : (a.pop w).next = a.next := by
  unfold Account.pop
  split
  · rfl
  · split <;> rfl

/-- A step gives a number to what passes the check. -/
theorem next_after {w w' : World} {a : Account} {l : Label} {es : List Event}
    (hs : w.step crc l = some (w', es)) :
    (a.after crc w l).next = a.next + (l.passes w).toList.length := by
  cases l with
  | call c =>
    cases c with
    | send message =>
      cases message with
      | none => rfl
      | some message =>
        simp only [Account.after, Label.passes]
        split
        · rfl
        · rw [sendInLoop_eq]
          rfl
    | _ => rfl
  | resume results sees =>
    have hdrain : ∀ round batch, (a.drain crc w round batch sees).next = a.next := by
      intro round batch
      unfold Account.drain
      split
      · rfl
      split
      · exact pop_next a w
      · unfold Account.endRound
        split
        · rfl
        · split <;> rfl
    simp only [Account.after]
    split
    · exact hdrain _ _
    · rfl
  | foreign t f =>
    have hpush : (a.push t).next = a.next := by
      unfold Account.push
      split <;> rfl
    have hleave : (a.leave t).next = a.next := by
      unfold Account.leave
      split
      · rw [accept_eq]
      · rfl
    obtain ⟨v, hv, -⟩ := Option.map_eq_some_iff.mp hs
    simp only [Account.after]
    cases ht : w.senders t <;> rw [ht] at hv <;> cases f <;>
      simp only [World.foreign, reduceCtorEq] at hv <;> simp only [Account.foreign, Label.passes]
    case idle.send message =>
      cases message with
      | none => rfl
      | some message =>
        dsimp only
        split <;> rfl
    case pushing.goOn => exact hpush
    case arming.goOn =>
      split
      · exact hleave
      · rfl
    case queueing.goOn => exact hleave
    all_goals rfl
  | _ => rfl

/-- The log grows only by what gets a number. -/
theorem log_same {x x' : Sending} {l : Label} {es : List Event}
    (hs : x.step crc l = some (x', es)) (hnext : x'.account.next = x.account.next) :
    x'.log = x.log := by
  obtain ⟨hs, hlog⟩ := x.step_tracked hs
  obtain ⟨hw, ha⟩ := x.tracked.step_world crc hs
  have hafter := next_after (a := x.tracked.account) hw
  rw [← ha, show x'.tracked.account.next = x.tracked.account.next from hnext] at hafter
  cases hpasses : l.passes x.world with
  | none => rw [hlog, hpasses, logged_none]
  | some p =>
    rw [show l.passes x.tracked.world = some p from hpasses] at hafter
    exact absurd hafter (by simp)

/-- What a drain pops stays under way in `Connected`, and a connection that was connected
    before rejects messages. -/
theorem popped_flows {log : List Passed} {w w' : World} {a : Account} {e : Sent}
    {queue : List Sent} (hqueue : a.queue = e :: queue) (hsenders : w'.senders = w.senders)
    (hstate : w'.conn.state = w.conn.state) (hready : w.conn.state ≠ .notConnected) :
    Flows log log w w' a (a.pop w) := by
  have hpop : a.pop w = if w.conn.state = .connected then
      { a with queue, batch := a.batch ++ [e] } else { a with queue, dropped := a.dropped ++ [e] } := by
    simp only [Account.pop, hqueue]
  have hentry : ∀ t, (a.pop w).entry t = a.entry t := by
    intro t
    rw [hpop]
    split <;> rfl
  have hwait : ∀ o, waiting w' (a.pop w) o = waiting w a o := fun o =>
    waiting_congr fun t _ => ⟨congrFun hsenders t, hentry t⟩
  by_cases hconn : w.conn.state = .connected
  · refine flows_same ?_ hwait
    rw [hpop, if_pos hconn, hqueue]
    simp
  · refine flows_lost ?_ hwait ?_
    · rw [hpop, if_neg hconn, hqueue]
      exact ((List.sublist_cons_self e queue).append_left _).append_left _
    · rw [TcpConnection.rejects, hstate]
      cases hw : w.conn.state with
      | notConnected => exact absurd hw hready
      | connected => exact absurd hw hconn
      | halfClosing | closed => rfl

/-- The other steps. -/
theorem Moves.flows {log log' : List Passed} {w w' : World} {a a' : Account} {l : Label}
    (hm : Moves crc l w w' a a') (h : Logged log a) (hpop : pops w l ≠ true)
    (hmono : w.conn.rejects = true → w'.conn.rejects = true)
    (hlog : log' = logged log a.next (l.passes w)) (hsame : a'.next = a.next → log' = log) :
    Flows log log' w w' a a' := by
  have hstay : ∀ {b : Account}, w'.senders = w.senders → (∀ t, b.entry t = a.entry t) →
      ∀ o, waiting w' b o = waiting w a o := fun hsenders hentry o =>
    waiting_congr fun t _ => ⟨congrFun hsenders t, hentry t⟩
  cases hm with
  | aside hsenders =>
    rw [hsame rfl]
    exact flows_same rfl (hstay hsenders fun _ => rfl)
  | shut hsenders =>
    rw [hsame rfl]
    exact flows_same rfl (hstay hsenders fun _ => rfl)
  | sent message hsenders hrej hfailed hl =>
    have hpasses : l.passes w = some (none, message) := by
      rw [hl]
      exact if_neg (by simp [hrej])
    rw [hlog, hpasses, logged_some]
    exact sent_flows h message hsenders hrej hfailed
  | popped hqueue hpops hsenders hstate => exact absurd hpops hpop
  | ended hends hsenders hround hfailed =>
    rw [hsame (by rw [endRound_eq hround])]
    exact ended_flows hround hsenders hmono hfailed
  | entered t message hentry hsenders hstate hl hrej =>
    have hpasses : l.passes w = some (some t, message) := by
      rw [hl]
      exact if_neg (by simp [hrej])
    rw [hlog, hpasses, logged_some]
    exact entered_flows h t message hentry hsenders
  | pushed hentry hsenders hstate hfrom =>
    rw [hsame rfl]
    exact pushed_flows h hentry hsenders hfrom
  | went hfrom hto hsenders hstate =>
    rw [hsame rfl]
    exact flows_same rfl (waiting_went hfrom hto hsenders fun _ _ => rfl)
  | left hentry hfrom hsenders hstate =>
    rw [hsame (by rw [leave_eq hentry])]
    refine flows_same (by rw [leave_eq hentry])
      (waiting_went hfrom (by simp) hsenders fun t' hne => ?_)
    exact (leave_entry hentry t').trans (if_neg hne)

/-- What a step does to the messages under way, unless it is a drain that pops in front of
    `connectEstablished`. -/
theorem step_flows {x x' : Sending} {tr : List Event} {l : Label} {es : List Event}
    (htracks : Tracks crc x.tracked tr) (h : Logged x.log x.account)
    (hmono : x.world.conn.rejects = true → x'.world.conn.rejects = true) (hready : Ready x l)
    (hs : x.step crc l = some (x', es)) :
    Flows x.log x'.log x.world x'.world x.account x'.account := by
  obtain ⟨htracked, hlog⟩ := x.step_tracked hs
  by_cases hpop : pops x.world l = true
  · obtain ⟨⟨e, queue, hqueue⟩, ha, hsenders, hstate⟩ := pop_step htracks hpop htracked
    have ha' : x'.account = x.account.pop x.world := ha
    rw [log_same hs (by rw [ha', pop_next]), ha']
    exact popped_flows hqueue hsenders hstate (hready hpop)
  · exact (step_tracks htracks htracked).moves.flows h hpop hmono hlog (log_same hs)

/-- The log goes on knowing what is under way. -/
theorem Moves.logged {log log' : List Passed} {w w' : World} {a a' : Account} {l : Label}
    (hm : Moves crc l w w' a a') (h : Logged log a)
    (hlog : log' = RocketRpc.Net.logged log a.next (l.passes w))
    (hsame : a'.next = a.next → log' = log) : Logged log' a' := by
  cases hm with
  | aside hsenders =>
    rw [hsame rfl]
    exact h
  | shut hsenders =>
    rw [hsame rfl]
    exact h.of_subset rfl (fun _ => List.mem_append_left _) (fun _ => Or.inl) fun _ _ => id
  | sent message hsenders hrej hfailed hl =>
    have hpasses : l.passes w = some (none, message) := by
      rw [hl]
      exact if_neg (by simp [hrej])
    rw [hlog, hpasses, logged_some, sendInLoop_eq]
    refine h.add none message rfl (fun e he => ?_) rfl fun t e he => Or.inl he
    dsimp only at he
    split at he
    · exact (List.mem_append.mp he).imp_right List.mem_singleton.mp
    · exact Or.inl he
  | @popped e queue hqueue hpops hsenders hstate =>
    rw [hsame (pop_next a w)]
    unfold Account.pop
    rw [hqueue]
    dsimp only
    split
    · refine h.of_subset rfl (fun _ => List.mem_append_left _) (fun e' he' => Or.inl ?_)
        fun _ _ => id
      rw [hqueue]
      simpa using he'
    · refine h.of_subset rfl (fun _ => List.mem_append_left _) (fun e' he' => Or.inl ?_)
        fun _ _ => id
      rw [hqueue]
      exact (List.mem_append.mp he').elim (List.mem_append_left _) fun hq =>
        List.mem_append_right _ (List.mem_cons_of_mem _ hq)
  | ended hends hsenders hround hfailed =>
    rw [hsame (by rw [endRound_eq hround]), endRound_eq hround]
    refine h.of_subset rfl (fun e he => ?_) (fun e he => Or.inl (List.mem_append_right _ he))
      fun _ _ => id
    dsimp only at he
    split at he
    · rw [← List.append_assoc]
      exact List.mem_append_left _ he
    · exact List.mem_append_left _ he
  | entered t message hentry hsenders hstate hl hrej =>
    have hpasses : l.passes w = some (some t, message) := by
      rw [hl]
      exact if_neg (by simp [hrej])
    rw [hlog, hpasses, logged_some]
    refine h.add (some t) message rfl (fun _ => Or.inl) rfl fun t' e he => ?_
    rw [entry_enter] at he
    split at he
    · rename_i heq
      exact Or.inr ⟨congrArg some heq, (Option.some.inj he).symm⟩
    · exact Or.inl he
  | @pushed t e hentry hsenders hstate hfrom =>
    rw [hsame rfl]
    refine h.of_subset rfl (fun _ => List.mem_append_left _) (fun e' he' => ?_) fun _ _ => id
    rcases List.mem_append.mp he' with he' | he'
    · exact Or.inl (List.mem_append_left _ he')
    rcases List.mem_append.mp he' with he' | he'
    · exact Or.inl (List.mem_append_right _ he')
    · exact Or.inr ⟨t, List.mem_singleton.mp he' ▸ hentry⟩
  | went hfrom hto hsenders hstate =>
    rw [hsame rfl]
    exact h
  | left hentry hfrom hsenders hstate =>
    rw [hsame (by rw [leave_eq hentry])]
    refine h.of_subset (by rw [leave_eq hentry]) (fun e he => ?_) (fun e he => Or.inl ?_)
      fun t e he => (leave_entry_some hentry he).2
    · rw [leave_eq hentry] at he
      exact List.mem_append_left _ he
    · rwa [leave_eq hentry] at he

/-! ## Runs -/

/-- Unless the connection rejects messages, nothing that was sent is lost. -/
def Kept (x : Sending) : Prop :=
  x.world.conn.rejects = false →
    ∀ o, onTheWay x.log x.world x.account o = sentBy x.log o

/-- What holds along a run, whatever its steps are. -/
structure Paths (crc : Bytes → UInt32) (x : Sending) (tr : List Event) : Prop where
  tracks : Tracks crc x.tracked tr
  logged : Logged x.log x.account
  attended : Attended x.world
  /-- Some ledger of connects goes with the connection, so its state moves forward. -/
  ledger : ∃ a, Ledgered x.world a
  order : ∀ o, (onTheWay x.log x.world x.account o).Sublist (sentBy x.log o)

/-- A connection that rejects messages goes on doing so. -/
theorem rejects_mono {w w' : World} {l : Label} {es : List Event} {a : ConnectLedger}
    (ha : Ledgered w a) (hs : w.step crc l = some (w', es)) (h : w.conn.rejects = true) :
    w'.conn.rejects = true := by
  have hrank := (step_advances ha hs).state
  unfold TcpConnection.rejects at h ⊢
  cases hw : w.conn.state <;> cases hw' : w'.conn.state <;>
    simp_all [TcpState.rank]

/-- A drain that pops in front of `connectEstablished` loses what it pops. -/
theorem unready_flows {x x' : Sending} {tr : List Event} {l : Label} {es : List Event}
    (h : Paths crc x tr) (hnot : ¬ Ready x l) (hs : x.step crc l = some (x', es)) :
    x'.log = x.log ∧ x'.world.conn.rejects = false ∧ x.world.conn.rejects = false ∧
      (∀ o, (onTheWay x'.log x'.world x'.account o).Sublist
        (onTheWay x.log x.world x.account o)) ∧
      ∃ o, onTheWay x'.log x'.world x'.account o ≠ onTheWay x.log x.world x.account o := by
  obtain ⟨htracked, hlog⟩ := x.step_tracked hs
  obtain ⟨hpop, hstate⟩ := Classical.not_imp.mp hnot
  have hstate : x.world.conn.state = .notConnected := not_not.mp hstate
  obtain ⟨⟨e, queue, hqueue⟩, ha, hsenders, hsame⟩ := pop_step h.tracks hpop htracked
  have hsame : x'.world.conn.state = .notConnected := hsame.trans hstate
  have hqueue : x.account.queue = e :: queue := hqueue
  have ha : x'.account = { x.account with queue, dropped := x.account.dropped ++ [e] } := by
    rw [show x'.account = x.account.pop x.world from ha, Account.pop, hqueue]
    exact if_neg (by simp [hstate])
  have hlog' : x'.log = x.log := log_same hs (by rw [ha])
  have hwait : ∀ o, waiting x'.world x'.account o = waiting x.world x.account o := fun o =>
    waiting_congr fun t _ => ⟨congrFun hsenders t, by rw [ha]; rfl⟩
  refine ⟨hlog', by simp [TcpConnection.rejects, hsame], by simp [TcpConnection.rejects, hstate],
    fun o => ?_, ?_⟩
  · rw [onTheWay, onTheWay, hwait, hlog', ha, hqueue]
    exact (((List.sublist_cons_self e queue).append_left _).append_left _ |>.filter _).append_right
      _
  · obtain ⟨t, ht⟩ := h.logged.queue e (List.mem_append_right _ (hqueue ▸ List.mem_cons_self))
    refine ⟨some t, fun heq => ?_⟩
    rw [onTheWay, onTheWay, hwait, hlog', ha, hqueue] at heq
    have hlen := congrArg List.length heq
    simp only [fromOrigin, List.filter_append, List.filter_cons, ht, decide_true, if_true,
      List.length_append, List.length_cons] at hlen
    omega

theorem step_paths {x x' : Sending} {tr : List Event} {l : Label} {es : List Event}
    (h : Paths crc x tr) (hs : x.step crc l = some (x', es)) : Paths crc x' (tr ++ es) := by
  obtain ⟨htracked, hlog⟩ := x.step_tracked hs
  obtain ⟨hw, ha⟩ := x.tracked.step_world crc htracked
  obtain ⟨a, hledger⟩ := h.ledger
  have hstep := step_tracks h.tracks htracked
  refine ⟨hstep.tracks, hstep.moves.logged h.logged hlog (log_same hs),
    step_attended h.attended hw, ⟨_, (step_advances hledger hw).ledger⟩, fun o => ?_⟩
  by_cases hready : Ready x l
  · cases step_flows h.tracks h.logged (rejects_mono hledger hw) hready hs with
    | on new hsent hway =>
      rw [hsent, hway]
      exact (h.order o).append_right _
    | shut hsent hway hrej => exact ((hway o).trans (h.order o)).trans (hsent o)
  · obtain ⟨hlog', -, -, hway, -⟩ := unready_flows h hready hs
    rw [hlog'] at hway ⊢
    exact (hway o).trans (h.order o)

/-- A step keeps what was sent if and only if it meets the condition. -/
theorem step_kept_iff {x x' : Sending} {tr : List Event} {l : Label} {es : List Event}
    (h : Paths crc x tr) (hk : Kept x) (hs : x.step crc l = some (x', es)) :
    Kept x' ↔ Ready x l := by
  obtain ⟨htracked, -⟩ := x.step_tracked hs
  obtain ⟨hw, -⟩ := x.tracked.step_world crc htracked
  obtain ⟨a, hledger⟩ := h.ledger
  constructor
  · intro hk'
    by_contra hready
    obtain ⟨hlog, hrej', hrej, -, o, hne⟩ := unready_flows h hready hs
    rw [hk' hrej' o, hk hrej o, hlog] at hne
    exact hne rfl
  · intro hready hrej'
    cases step_flows h.tracks h.logged (rejects_mono hledger hw) hready hs with
    | on new hsent hway =>
      intro o
      have hrej : x.world.conn.rejects = false := by
        by_contra hne
        have hon := rejects_mono hledger hw (by simpa using hne)
        exact absurd (hon.symm.trans hrej') (by simp)
      rw [hsent, hway, hk hrej o]
    | shut hsent hway hrej => exact absurd (hrej.symm.trans hrej') (by simp)

theorem paths_new (callbacks : Callbacks) (highWaterMark : Nat) :
    Paths crc ⟨⟨World.new callbacks highWaterMark, {}⟩, []⟩ [] where
  tracks := tracks_new rfl rfl fun _ => rfl
  logged := ⟨by simp, by simp, by simp [Sending.account], by simp [Sending.account],
    by simp [Sending.account, entry]⟩
  attended := attended_new rfl rfl
  ledger := ⟨{}, (lives_new callbacks highWaterMark).ledger⟩
  order o := by
    cases o <;> exact List.Sublist.refl _

/-! ## Rest -/

/-- Nothing of the connection is under way or queued. -/
def World.AtRest (w : World) : Prop :=
  w.stack = [] ∧ w.tasks = [] ∧ ∀ t, w.senders t = .idle

/-- The steps that begin nothing new. -/
def Label.goesOn : Label → Bool
  | .task | .returns | .resume _ _ | .foreign _ .goOn => true
  | _ => false

theorem flushLoop_stops (b : TcpBuffer) : ∃ results, (flushLoop b results).isSome = true := by
  by_cases h : b.readAble = 0
  · exact ⟨[], by simp [flushLoop, h]⟩
  · exact ⟨[.error .EAGAIN], by simp [flushLoop, h]⟩

theorem resume_goes_on (w : World) {frame : Frame} (h : frame ≠ .user) :
    ∃ results, (w.resume crc results true frame).isSome = true := by
  cases frame with
  | user => exact absurd rfl h
  | flush =>
    obtain ⟨results, hresults⟩ := flushLoop_stops w.conn.outBuffer
    refine ⟨results, ?_⟩
    rw [World.resume, World.flush, Option.isSome_map]
    exact hresults
  | _ => exact ⟨[], rfl⟩

/-- A connection that is not at rest can go on. -/
theorem goes_on (w : World) :
    w.AtRest ∨ ∃ l, l.goesOn = true ∧ (w.step crc l).isSome = true := by
  by_cases hidle : ∀ t, w.senders t = .idle
  · cases hstack : w.stack with
    | nil =>
      cases htasks : w.tasks with
      | nil => exact Or.inl ⟨hstack, htasks, hidle⟩
      | cons task tasks => exact Or.inr ⟨.task, rfl, by simp [World.step, hstack, htasks]⟩
    | cons frame stack =>
      refine Or.inr ?_
      by_cases huser : frame = .user
      · exact ⟨.returns, rfl, by simp [World.step, hstack, huser]⟩
      · obtain ⟨results, hresults⟩ := @resume_goes_on crc { w with stack } _ huser
        refine ⟨.resume results true, rfl, ?_⟩
        simp only [World.step, hstack]
        exact hresults
  · obtain ⟨t, ht⟩ := not_forall.mp hidle
    refine Or.inr ⟨.foreign t .goOn, rfl, ?_⟩
    simp only [World.step, Option.isSome_map]
    cases hsender : w.senders t with
    | idle => exact absurd hsender ht
    | arming =>
      simp only [World.foreign]
      split <;> rfl
    | _ => rfl

/-- At rest all that is under way is encoded. -/
theorem Paths.rest {x : Sending} {tr : List Event} (h : Paths crc x tr) (hrest : x.world.AtRest)
    (o : Option ThreadId) : onTheWay x.log x.world x.account o = x.encodedFrom o := by
  obtain ⟨hstack, htasks, hidle⟩ := hrest
  have hnodes : x.tracked.world.conn.writeQueue = [] := h.attended.rest hstack htasks hidle
  have hqueue : x.account.queue = [] := by
    have hsync := h.tracks.sync.queue
    rw [hnodes] at hsync
    exact List.map_eq_nil_iff.mp hsync
  have hbatch : x.account.batch = [] :=
    (h.tracks.round.nothing (topKept_of_idle hstack)).1
  have hwait : waiting x.world x.account o = [] := by
    cases o with
    | none => rfl
    | some t => exact waiting_nil fun m => by simp [hidle t]
  rw [onTheWay, hwait, hqueue, hbatch, List.append_nil, List.append_nil, List.append_nil]
  rfl

/-! ## Main result -/

/-- In every run what is encoded of a thread's messages is in the order of its sends. In a run
    whose steps meet the condition, while the connection rejects no message, everything that a
    thread has sent is encoded, or behind that in a round, in the queue or at its push, in the
    order of its sends; somebody attends to the queue; and at rest, in front of which the
    connection can go on, all is encoded, whether it was sent on the loop or not. The condition
    is what each further step needs to keep this. -/
theorem send_paths_agree (crc : Bytes → UInt32) (callbacks : Callbacks) (highWaterMark : Nat)
    (ls : List Label) (x : Sending) (tr : List Event)
    (hrun : run (Sending.step crc) ⟨⟨World.new callbacks highWaterMark, {}⟩, []⟩ ls =
      some (x, tr)) :
    encodedMessages tr = sealedAll crc (x.account.encoded.map Sent.message) ∧
      (∀ o, (x.encodedFrom o).Sublist (sentBy x.log o)) ∧
      (RunOk (Sending.step crc) Ready ⟨⟨World.new callbacks highWaterMark, {}⟩, []⟩ ls →
        (x.world.conn.rejects = false →
          (∀ o, onTheWay x.log x.world x.account o = sentBy x.log o) ∧
          (x.world.conn.writeQueue ≠ [] → Draining x.world ∨ Rechecking x.world) ∧
          (x.world.AtRest ∨ ∃ l, l.goesOn = true ∧ (x.world.step crc l).isSome = true) ∧
          (x.world.AtRest → ∀ o, x.encodedFrom o = sentBy x.log o)) ∧
        ∀ l x' es, x.step crc l = some (x', es) → (Kept x' ↔ Ready x l)) := by
  have h : Paths crc x tr := run_induction (Paths crc)
    (fun _ _ _ _ _ hp hs => step_paths hp hs) [] (paths_new callbacks highWaterMark) hrun
  refine ⟨h.tracks.encoded, fun o => ?_, fun hok => ?_⟩
  · refine List.Sublist.trans ?_ (h.order o)
    unfold onTheWay
    rw [fromOrigin_append, List.append_assoc]
    exact List.sublist_append_left _ _
  · have hk : Paths crc x tr ∧ Kept x := runOk_induction (fun y es => Paths crc y es ∧ Kept y)
      (fun _ _ _ _ _ hp hready hs => ⟨step_paths hp.1 hs, (step_kept_iff hp.1 hp.2 hs).mpr hready⟩)
      [] ⟨paths_new callbacks highWaterMark, fun _ o => by cases o <;> rfl⟩ hok hrun
    refine ⟨fun hrej => ⟨hk.2 hrej, h.attended.queue, goes_on x.world, fun hrest o => ?_⟩,
      fun l x' es hs => step_kept_iff h hk.2 hs⟩
    rw [← h.rest hrest o, hk.2 hrej o]

/-- Another thread sends a message, up to the drain that it queues. -/
def sentElsewhere (message : AbstractProtocol) : List Label :=
  [.foreign 1 (.send (some message)), .foreign 1 .goOn, .foreign 1 .goOn, .foreign 1 .goOn,
    .foreign 1 .goOn]

/-- The steps of a drain: a `pop`, the ends of its rounds, its store and its re-check. -/
def drainSteps (n : Nat) : List Label := .task :: List.replicate n (.resume [] true)

/-- Both paths on a connection that is connected. -/
def sentBothWays : List Label :=
  .call .connectEstablished :: sentElsewhere (.tinyPB { msgId := [49] }) ++ drainSteps 7 ++
    [.call (.send (some (.tinyPB { msgId := [50] })))]

theorem send_paths_agree_both_ways :
    ∃ x tr, run (Sending.step fun _ => 0)
        ⟨⟨World.new ⟨true, false, true, false, false⟩ 0, {}⟩, []⟩ sentBothWays = some (x, tr) ∧
      x.account.encoded =
        [⟨0, .tinyPB { msgId := [49] }⟩, ⟨1, .tinyPB { msgId := [50] }⟩] ∧
      ∀ o, onTheWay x.log x.world x.account o = sentBy x.log o := by
  have hrun : (run (Sending.step fun _ => 0)
      ⟨⟨World.new ⟨true, false, true, false, false⟩ 0, {}⟩, []⟩ sentBothWays).map
      (fun r => decide (r.1.account.encoded =
          [⟨0, .tinyPB { msgId := [49] }⟩, ⟨1, .tinyPB { msgId := [50] }⟩] ∧
        r.1.world.conn.rejects = false)) = some true := by decide +kernel
  obtain ⟨⟨x, tr⟩, hx, heq⟩ := Option.map_eq_some_iff.mp hrun
  obtain ⟨hencoded, hrej⟩ := of_decide_eq_true heq
  have hagree := send_paths_agree (fun _ => 0) _ 0 sentBothWays x tr hx
  exact ⟨x, tr, hx, hencoded, ((hagree.2.2 (by decide +kernel)).1 hrej).1⟩

/-- In front of `connectEstablished` the message of another thread is dropped by the drain, and
    nothing is left to be done; the same message sent on the loop is encoded. -/
theorem send_paths_differ :
    (∃ x tr, run (Sending.step fun _ => 0)
        ⟨⟨World.new ⟨true, false, true, false, false⟩ 0, {}⟩, []⟩
        (sentElsewhere (.tinyPB { msgId := [49] }) ++ drainSteps 6) = some (x, tr) ∧
      x.world.conn.rejects = false ∧ sentBy x.log (some 1) = [⟨0, .tinyPB { msgId := [49] }⟩] ∧
      x.account.encoded = [] ∧ x.world.conn.writeQueue = [] ∧ x.world.stack = [] ∧
      x.world.tasks = [] ∧ x.world.senders 1 = .idle) ∧
    ∃ x tr, run (Sending.step fun _ => 0)
        ⟨⟨World.new ⟨true, false, true, false, false⟩ 0, {}⟩, []⟩
        [.call (.send (some (.tinyPB { msgId := [49] })))] = some (x, tr) ∧
      x.account.encoded = [⟨0, .tinyPB { msgId := [49] }⟩] := by
  have hdropped : (run (Sending.step fun _ => 0)
      ⟨⟨World.new ⟨true, false, true, false, false⟩ 0, {}⟩, []⟩
      (sentElsewhere (.tinyPB { msgId := [49] }) ++ drainSteps 6)).map
      (fun r => decide (r.1.world.conn.rejects = false ∧
        sentBy r.1.log (some 1) = [⟨0, .tinyPB { msgId := [49] }⟩] ∧
        r.1.account.encoded = [] ∧ r.1.world.conn.writeQueue = [] ∧ r.1.world.stack = [] ∧
        r.1.world.tasks = [] ∧ r.1.world.senders 1 = .idle)) = some true := by decide +kernel
  have hencoded : (run (Sending.step fun _ => 0)
      ⟨⟨World.new ⟨true, false, true, false, false⟩ 0, {}⟩, []⟩
      [.call (.send (some (.tinyPB { msgId := [49] })))]).map
      (fun r => decide (r.1.account.encoded = [⟨0, .tinyPB { msgId := [49] }⟩])) =
        some true := by decide +kernel
  obtain ⟨⟨x, tr⟩, hx, heq⟩ := Option.map_eq_some_iff.mp hdropped
  obtain ⟨⟨y, tr'⟩, hy, heq'⟩ := Option.map_eq_some_iff.mp hencoded
  exact ⟨⟨x, tr, hx, of_decide_eq_true heq⟩, y, tr', hy, of_decide_eq_true heq'⟩

end RocketRpc.Net
