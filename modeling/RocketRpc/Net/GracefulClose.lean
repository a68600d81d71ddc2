import RocketRpc.Net.AccountSync
import RocketRpc.Net.ArmedOutput

/-
  A graceful close and the messages that were accepted before it.

  `Safe` is the invariant: what is owed is in the queue, in the round of a drain or encoded,
  and nothing that is owed was dropped. It needs the condition `Graceful` on the steps. When
  the graceful close closes the connection, the ledger of its output says that the kernel
  has accepted all that was encoded.
-/

namespace RocketRpc.Net

open RocketRpc.Tcp RocketRpc.Coder Machine Account

variable {crc : Bytes → UInt32}

/-! ## What is owed -/

/-- Nothing that is owed, or will be when its `send` returns, is lost. -/
structure Safe (w : World) (a : Account) : Prop where
  owed : w.conn.state ≠ .closed → ∀ e ∈ a.owed, a.Holds e
  pushed : a.shut = false → w.conn.state ≠ .closed → ∀ t e, a.entry t = some e →
    (∀ m, w.senders t ≠ .pushing m) → a.Holds e
  dropped : ∀ e ∈ a.dropped, a.shut = true ∧ e ∉ a.owed

section Safe

variable {w w' : World} {a : Account} (h : Safe w a)

include h

theorem Safe.shut (hclosed : w.conn.state = .closed → w'.conn.state = .closed) :
    Safe w' { a with shut := true } where
  owed hopen := h.owed (mt hclosed hopen)
  pushed hshut := absurd hshut (by simp)
  dropped e he := ⟨rfl, (h.dropped e he).2⟩

theorem Safe.sent (message : AbstractProtocol) (hsenders : w'.senders = w.senders)
    (hrej : w.conn.rejects = false)
    (hfailed : (encode crc [message] w.conn.outBuffer).1 = false → w'.conn.state = .closed) :
    Safe w' (a.sendInLoop crc w message) := by
  have hwas : w.conn.state ≠ .closed := by
    intro hc
    simp [TcpConnection.rejects, hc] at hrej
  have heq : a.sendInLoop crc w message = _ := sendInLoop_eq w a message
  refine ⟨fun hopen e he => ?_, fun hshut _ t e he ht => ?_, fun e he => ?_⟩
  · rcases mem_accept.mp he with he | ⟨-, rfl⟩
    · exact (h.owed hwas e he).sendInLoop w message
    · have henc : encodes crc w [⟨a.next, message⟩] = true := by
        cases henc : (encode crc [message] w.conn.outBuffer).1 with
        | true => simp [encodes, henc, hrej]
        | false => exact absurd (hfailed henc) hopen
      rw [heq]
      refine Or.inr (Or.inr ?_)
      dsimp only
      rw [if_pos henc]
      exact List.mem_append_right _ (List.mem_singleton_self _)
  · have hshut' : a.shut = false := by rwa [heq] at hshut
    have he' : a.entry t = some e := by rwa [heq] at he
    exact (h.pushed hshut' hwas t e he' (hsenders ▸ ht)).sendInLoop w message
  · rw [heq] at he ⊢
    obtain ⟨hshut, hno⟩ := h.dropped e he
    refine ⟨hshut, ?_⟩
    dsimp only
    rw [if_pos hshut]
    exact hno

/-- A drain pops a message. Outside `Connected` it drops it, so the message must be one that
    nobody waits for. -/
theorem Safe.popped {e : Sent} {queue : List Sent} (hqueue : a.queue = e :: queue)
    (hsenders : w'.senders = w.senders) (hstate : w'.conn.state = w.conn.state)
    (hdrop : w.conn.state ≠ .connected → a.shut = true ∧ e ∉ a.owed) : Safe w' (a.pop w) := by
  unfold Account.pop
  rw [hqueue]
  dsimp only
  by_cases hconn : w.conn.state = .connected
  · rw [if_pos hconn]
    have hmono : ∀ e', a.Holds e' →
        ({ a with queue, batch := a.batch ++ [e] } : Account).Holds e' := fun e' he' =>
      he'.mono (fun e₁ hm => by
        rcases List.mem_cons.mp (hqueue ▸ hm) with rfl | hm
        · exact Or.inr (Or.inl (List.mem_append_right _ (List.mem_singleton_self _)))
        · exact Or.inl hm)
        (fun _ hm => Or.inr (Or.inl (List.mem_append_left _ hm))) fun _ hm => Or.inr (Or.inr hm)
    exact ⟨fun hopen e' he' => hmono e' (h.owed (hstate ▸ hopen) e' he'),
      fun hshut hopen t e' he' ht =>
        hmono e' (h.pushed hshut (hstate ▸ hopen) t e' he' (hsenders ▸ ht)), h.dropped⟩
  · rw [if_neg hconn]
    obtain ⟨hshut, hno⟩ := hdrop hconn
    have hmono : ∀ e' ∈ a.owed, a.Holds e' →
        ({ a with queue, dropped := a.dropped ++ [e] } : Account).Holds e' := fun e' hmem he' => by
      rcases he' with he' | he' | he'
      · rcases List.mem_cons.mp (hqueue ▸ he') with rfl | he'
        · exact absurd hmem hno
        · exact Or.inl he'
      · exact Or.inr (Or.inl he')
      · exact Or.inr (Or.inr he')
    refine ⟨fun hopen e' he' => hmono e' he' (h.owed (hstate ▸ hopen) e' he'),
      fun hfalse => absurd (hshut.symm.trans hfalse) (by simp), fun e' he' => ?_⟩
    rcases List.mem_append.mp he' with he' | he'
    · exact h.dropped e' he'
    · obtain rfl := List.mem_singleton.mp he'
      exact ⟨hshut, hno⟩

/-- A round ends: its messages are encoded, as the connection is still established. -/
theorem Safe.ended (hsenders : w'.senders = w.senders) (hround : Batching w a)
    (hfailed : w.conn.rejects = false → encodes crc w a.batch = false → w'.conn.state = .closed)
    (hclosed : w.conn.state = .closed → w'.conn.state = .closed) :
    Safe w' (a.endRound crc w) := by
  rw [endRound_eq hround]
  have hmono : w'.conn.state ≠ .closed → ∀ e, a.Holds e → ({ a with
      encoded := if encodes crc w a.batch then a.encoded ++ a.batch else a.encoded
      batch := [] } : Account).Holds e := by
    intro hopen e he
    refine he.mono (fun _ => Or.inl) (fun e' hm => Or.inr (Or.inr ?_))
      fun _ hm => Or.inr (Or.inr ?_)
    · have hconn : w.conn.state = .connected := hround.connected (List.ne_nil_of_mem hm)
      have henc : encodes crc w a.batch = true := by
        by_contra henc
        exact hopen (hfailed (by simp [TcpConnection.rejects, hconn]) (by simpa using henc))
      dsimp only
      rw [if_pos henc]
      exact List.mem_append_right _ hm
    · dsimp only
      split
      · exact List.mem_append_left _ hm
      · exact hm
  exact ⟨fun hopen e he => hmono hopen e (h.owed (mt hclosed hopen) e he),
    fun hshut hopen t e he ht =>
      hmono hopen e (h.pushed hshut (mt hclosed hopen) t e he (hsenders ▸ ht)), h.dropped⟩

/-- A thread passes the check of `send`. -/
theorem Safe.entered (t : ThreadId) (message : AbstractProtocol)
    (hsenders : w'.senders = Function.update w.senders t (.pushing message))
    (hstate : w'.conn.state = w.conn.state) : Safe w' (a.enter t message) := by
  refine ⟨fun hopen => h.owed (hstate ▸ hopen), fun hshut hopen t' e he ht => ?_, h.dropped⟩
  rw [hsenders] at ht
  rw [entry_enter] at he
  by_cases heq : t = t'
  · subst heq
    exact absurd (Function.update_self t _ w.senders) (ht message)
  · rw [if_neg heq] at he
    rw [Function.update_of_ne (Ne.symm heq)] at ht
    exact h.pushed hshut (hstate ▸ hopen) t' e he ht

/-- The message of a thread takes its place in the queue. -/
theorem Safe.pushedBy {t : ThreadId} {e : Sent} (hentry : a.entry t = some e)
    (hsenders : w'.senders = Function.update w.senders t .linking)
    (hstate : w'.conn.state = w.conn.state) : Safe w' { a with queue := a.queue ++ [e] } := by
  have hmono : ∀ e', a.Holds e' → ({ a with queue := a.queue ++ [e] } : Account).Holds e' :=
    fun e' he' => he'.mono (fun _ hm => Or.inl (List.mem_append_left _ hm))
      (fun _ hm => Or.inr (Or.inl hm)) fun _ hm => Or.inr (Or.inr hm)
  refine ⟨fun hopen e' he' => hmono e' (h.owed (hstate ▸ hopen) e' he'),
    fun hshut hopen t' e' he' ht => ?_, h.dropped⟩
  by_cases heq : t' = t
  · subst heq
    obtain rfl : e = e' := Option.some.inj (hentry.symm.trans he')
    exact Or.inl (List.mem_append_right _ (List.mem_singleton_self _))
  · rw [hsenders, Function.update_of_ne heq] at ht
    exact hmono e' (h.pushed hshut (hstate ▸ hopen) t' e' he' ht)

/-- A thread goes on behind the exchange. -/
theorem Safe.went {t : ThreadId} {sender : Sender} (hfrom : ∀ m, w.senders t ≠ .pushing m)
    (hsenders : w'.senders = Function.update w.senders t sender)
    (hstate : w'.conn.state = w.conn.state) : Safe w' a := by
  refine ⟨fun hopen => h.owed (hstate ▸ hopen), fun hshut hopen t' e he ht => ?_, h.dropped⟩
  refine h.pushed hshut (hstate ▸ hopen) t' e he ?_
  by_cases heq : t' = t
  · exact heq ▸ hfrom
  · rwa [hsenders, Function.update_of_ne heq] at ht

/-- `send` returns on another thread: its message is owed unless `shutdown` was called. -/
theorem Safe.left {t : ThreadId} {e : Sent} (hentry : a.entry t = some e)
    (hfrom : ∀ m, w.senders t ≠ .pushing m)
    (hsenders : w'.senders = Function.update w.senders t .idle)
    (hstate : w'.conn.state = w.conn.state) : Safe w' (a.leave t) := by
  have hmono : ∀ e', a.Holds e' → (a.leave t).Holds e' := fun e' he' => by
    rw [leave_eq hentry]
    exact he'
  have hshut_eq : (a.leave t).shut = a.shut := by rw [leave_eq hentry]
  refine ⟨fun hopen e' he' => ?_, fun hshut hopen t' e' he' ht => ?_, fun e' he' => ?_⟩
  · have hopen : w.conn.state ≠ .closed := hstate ▸ hopen
    rcases (mem_leave_owed hentry).mp he' with he' | ⟨hshut, rfl⟩
    · exact hmono e' (h.owed hopen e' he')
    · exact hmono e' (h.pushed hshut hopen t e' hentry hfrom)
  · obtain ⟨hne, he'⟩ := leave_entry_some hentry he'
    rw [hsenders, Function.update_of_ne hne] at ht
    exact hmono e' (h.pushed (hshut_eq ▸ hshut) (hstate ▸ hopen) t' e' he' ht)
  · have hmem : e' ∈ a.dropped := by rwa [leave_eq hentry] at he'
    obtain ⟨hshut, hno⟩ := h.dropped e' hmem
    refine ⟨hshut_eq.trans hshut, fun howed => ?_⟩
    rcases (mem_leave_owed hentry).mp howed with howed | ⟨hfalse, -⟩
    · exact hno howed
    · exact absurd (hshut.symm.trans hfalse) (by simp)

/-- One step of any kind. -/
theorem Safe.moves {l : Label} {a' : Account} (hm : Moves crc l w w' a a')
    (hclosed : w.conn.state = .closed → w'.conn.state = .closed)
    (hdrop : pops w l = true → w.conn.state ≠ .connected →
      ∀ e ∈ a.queue.head?, a.shut = true ∧ e ∉ a.owed) : Safe w' a' := by
  cases hm with
  | aside hsenders =>
    exact ⟨fun hopen => h.owed (mt hclosed hopen), fun hshut hopen t e he ht =>
      h.pushed hshut (mt hclosed hopen) t e he (hsenders ▸ ht), h.dropped⟩
  | shut hsenders => exact h.shut hclosed
  | sent message hsenders hrej hfailed => exact h.sent message hsenders hrej hfailed
  | popped hqueue hpops hsenders hstate =>
    exact h.popped hqueue hsenders hstate fun hconn => hdrop hpops hconn _ (by simp [hqueue])
  | ended hends hsenders hround hfailed => exact h.ended hsenders hround hfailed hclosed
  | entered t message hentry hsenders hstate => exact h.entered t message hsenders hstate
  | pushed hentry hsenders hstate hfrom => exact h.pushedBy hentry hsenders hstate
  | went hfrom hto hsenders hstate => exact h.went hfrom hsenders hstate
  | left hentry hfrom hsenders hstate => exact h.left hentry hfrom hsenders hstate

end Safe

/-! ## The condition -/

/-- No message that is owed, or will be when its `send` returns, waits for a drain. -/
def Account.Settled (a : Account) : Prop :=
  (∀ e ∈ a.queue, e ∉ a.owed) ∧ (a.shut = true ∨ (a.queue = [] ∧ a.sending = []))

instance (a : Account) : Decidable a.Settled := inferInstanceAs (Decidable (_ ∧ _))

/-- The step is the graceful close behind the write-complete callback. -/
def completes (w : World) (l : Label) : Bool :=
  match l, w.stack with
  | .resume _ _, .writeCompleted :: _ => w.conn.state == .halfClosing && w.conn.inFlight == 0
  | _, _ => false

/-- The step makes the connection reject messages. -/
def turns (crc : Bytes → UInt32) (w : World) (l : Label) : Bool :=
  !w.conn.rejects && (w.step crc l).any fun r => r.1.conn.rejects

/-- The account with the call of `shutdown` that the step is. -/
def Account.called (a : Account) : Label → Account
  | .call .shutdown => { a with shut := true }
  | _ => a

/-- The condition on a step: a connection that begins to reject messages has drained what it
    owes, no such message is popped before the connection is established, and the
    write-complete callback has left the output buffer empty when the connection closes. -/
structure Graceful (crc : Bytes → UInt32) (x : Tracked) (l : Label) : Prop where
  settles : turns crc x.world l = true → (x.account.called l).Settled
  waits : pops x.world l = true → x.world.conn.state = .notConnected →
    ∀ e ∈ x.account.queue.head?, x.account.shut = true ∧ e ∉ x.account.owed
  empties : completes x.world l = true → x.world.conn.outBuffer.readable = []

section Settled

variable {a : Account} (h : a.Settled)

include h

theorem settled_pop (w : World) : (a.pop w).Settled := by
  obtain ⟨hqueue, hshut⟩ := h
  unfold Account.pop
  split
  · exact ⟨hqueue, hshut⟩
  · rename_i e queue hq
    have hs : a.shut = true := by
      rcases hshut with hs | ⟨hnil, -⟩
      · exact hs
      · simp [hnil] at hq
    have hrest : ∀ e' ∈ queue, e' ∉ a.owed := fun e' he' =>
      hqueue e' (hq ▸ List.mem_cons_of_mem _ he')
    split <;> exact ⟨hrest, Or.inl hs⟩

theorem settled_endRound (w : World) : (a.endRound crc w).Settled := by
  obtain ⟨hqueue, hshut⟩ := h
  unfold Account.endRound
  split
  · exact ⟨hqueue, hshut⟩
  · split <;> exact ⟨hqueue, hshut⟩

theorem settled_drain (w : World) (round batch : Nat) (sees : Bool) :
    (a.drain crc w round batch sees).Settled := by
  unfold Account.drain
  by_cases hround : round = 3
  · rw [if_pos hround]
    exact h
  · rw [if_neg hround]
    cases hpop : (if batch < 256 then MpscQueue.pop w.conn.writeQueue sees else none) with
    | none => exact settled_endRound h w
    | some r => exact settled_pop h w

/-- A thread that is in `send` then has come too late. -/
theorem settled_shut {t : ThreadId} {e : Sent} (he : a.entry t = some e) : a.shut = true := by
  rcases h.2 with hshut | ⟨-, hnil⟩
  · exact hshut
  · exact absurd hnil (mem_sending he)

theorem settled_push (hno : ∀ t e, a.entry t = some e → e ∉ a.owed) (t : ThreadId) :
    (a.push t).Settled := by
  unfold Account.push
  cases he : a.entry t with
  | none => exact h
  | some e =>
    have hs := settled_shut h he
    refine ⟨fun e' he' => ?_, Or.inl hs⟩
    rcases List.mem_append.mp he' with he' | he'
    · exact h.1 e' he'
    · rw [List.mem_singleton.mp he']
      exact hno t e he

theorem settled_leave (t : ThreadId) : (a.leave t).Settled := by
  unfold Account.leave
  cases he : a.entry t with
  | none => exact h
  | some e =>
    have hs := settled_shut h he
    simp only [accept_eq, Account.Settled, hs, if_true]
    exact ⟨h.1, Or.inl trivial⟩

theorem settled_foreign {w : World} (hrej : w.conn.rejects = true)
    (hno : ∀ t e, a.entry t = some e → e ∉ a.owed) (t : ThreadId) (sender : Sender)
    (f : Foreign) : (a.foreign w t sender f).Settled := by
  unfold Account.foreign
  split
  · rw [if_pos hrej]
    exact h
  · exact ⟨h.1, Or.inl rfl⟩
  · exact settled_push h hno t
  · split
    · exact settled_leave h t
    · exact h
  · exact settled_leave h t
  · exact h

/-- What a settled connection drains, it drains settled. -/
theorem settled_resume (w : World) (results : List (Except Errno Nat)) (sees : Bool) :
    (a.after crc w (.resume results sees)).Settled := by
  simp only [Account.after]
  split
  · exact settled_drain h w _ _ sees
  · exact h

/-- A connection that rejects messages stays settled. -/
theorem settled_after {w : World} (hrej : w.conn.rejects = true)
    (hno : ∀ t e, a.entry t = some e → e ∉ a.owed) (l : Label) :
    (a.after crc w l).Settled := by
  cases l with
  | call c =>
    cases c with
    | send message =>
      cases message with
      | none => exact h
      | some message =>
        simp only [Account.after]
        rw [if_pos hrej]
        exact h
    | shutdown => exact ⟨h.1, Or.inl rfl⟩
    | _ => exact h
  | resume results sees => exact settled_resume h w results sees
  | foreign t f => exact settled_foreign h hrej hno t _ f
  | _ => exact h

end Settled

/-- Other threads do not touch the state. -/
theorem foreign_state {w w' : World} {t : ThreadId} {sender : Sender} {f : Foreign}
    (hs : w.foreign t sender f = some w') : w'.conn.state = w.conn.state := by
  cases foreignSteps_of_foreign hs <;> rfl

/-- The step on which a connection begins to reject messages leaves it settled. -/
theorem settled_turns {a : Account} {w : World} {l : Label} (hturns : turns crc w l = true)
    (h : (a.called l).Settled) (hqueue : ∀ e ∈ a.queue, e.number < a.next) :
    (a.after crc w l).Settled := by
  cases l with
  | call c =>
    cases c with
    | send message =>
      cases message with
      | none => exact h
      | some message =>
        simp only [Account.after]
        split
        · exact h
        simp only [Account.sendInLoop, accept_eq]
        refine ⟨fun e he => ?_, h.2⟩
        have hno : e ∉ a.owed := h.1 e he
        dsimp only
        split
        · exact hno
        · intro hmem
          rcases List.mem_append.mp hmem with hmem | hmem
          · exact hno hmem
          · obtain rfl := List.mem_singleton.mp hmem
            exact absurd (hqueue _ he) (Nat.lt_irrefl _)
    | _ => exact h
  | resume results sees => exact settled_resume h w results sees
  | foreign t f =>
    unfold turns World.step at hturns
    cases hw : w.foreign t (w.senders t) f with
    | none => simp [hw] at hturns
    | some w' =>
      have hsame : w'.conn.rejects = w.conn.rejects := by
        simp [TcpConnection.rejects, foreign_state hw]
      simp [hw, hsame] at hturns
  | _ => exact h

/-! ## Runs -/

/-- What holds along a run whose steps meet the condition. -/
structure Along (crc : Bytes → UInt32) (x : Tracked) (tr : List Event) : Prop where
  tracks : Tracks crc x tr
  safe : Safe x.world x.account
  settled : x.world.conn.rejects = true → x.account.Settled
  ledger : Ledger x.world.conn tr

theorem step_along {x x' : Tracked} {tr : List Event} {l : Label} {es : List Event}
    (h : Along crc x tr) (hok : Graceful crc x l) (hs : x.step crc l = some (x', es)) :
    Along crc x' (tr ++ es) := by
  obtain ⟨hw, ha⟩ := x.step_world crc hs
  have hstep := step_tracks h.tracks hs
  refine ⟨hstep.tracks, h.safe.moves hstep.moves (fun hc => (step_closed hc hw).1) ?_,
    fun hrej' => ?_, step_ledger h.ledger hw⟩
  · intro hpops hconn e he
    cases hstate : x.world.conn.state with
    | connected => exact absurd hstate hconn
    | notConnected => exact hok.waits hpops hstate e he
    | halfClosing | closed =>
      obtain ⟨hno, hshut⟩ := h.settled (by simp [TcpConnection.rejects, hstate])
      have hmem : e ∈ x.account.queue := List.mem_of_mem_head? he
      exact ⟨hshut.resolve_right fun hnil => by simp [hnil.1] at hmem, hno e hmem⟩
  · rw [ha]
    cases hrej : x.world.conn.rejects with
    | true => exact settled_after (h.settled hrej) hrej h.tracks.numbered.entry_not_owed l
    | false =>
      have hturns : turns crc x.world l = true := by simp [turns, hrej, hw, hrej']
      exact settled_turns hturns (hok.settles hturns) h.tracks.numbered.queue_lt

theorem along_new (callbacks : Callbacks) (highWaterMark : Nat) :
    Along crc ⟨World.new callbacks highWaterMark, {}⟩ [] where
  tracks := tracks_new rfl rfl fun _ => rfl
  safe := ⟨fun _ => by simp, fun _ _ => by simp [entry], by simp⟩
  settled hrej := absurd hrej (by simp [World.new, TcpConnection.rejects])
  ledger _ := TcpBuffer.readable_new kDefaultBufferSize

/-! ## The graceful close -/

theorem handleClose_other (w : World) {why : Why} (h : why ≠ .drained) :
    .closed .drained ∉ (w.handleClose why).2 := by
  intro hmem
  rcases mem_handleClose hmem with heq | heq
  · exact h (Event.closed.inj heq).symm
  · exact absurd heq (by simp)

theorem close_other (w : World) {why : Why} (h : why ≠ .drained) :
    .closed .drained ∉ (w.close why).2 := by
  unfold World.close
  split
  · simp
  · simpa using h.symm

theorem connectCallback_other (w : World) (cb : Bool) (errorCode : Nat) :
    .closed .drained ∉ (w.connectCallback cb errorCode).2 := by
  unfold World.connectCallback
  split <;> simp

theorem connectEstablished_other (w : World) : .closed .drained ∉ w.connectEstablished.2 := by
  unfold World.connectEstablished
  split
  · simp
  dsimp only
  split <;> simp

theorem finish_other (w : World) (cb : Bool) (soError : Nat) :
    .closed .drained ∉ (w.finish cb soError).2 := by
  unfold World.finish
  split
  · intro hmem
    rcases List.mem_append.mp hmem with hmem | hmem
    · exact close_other _ (by simp) hmem
    · exact connectCallback_other _ cb soError hmem
  · exact connectEstablished_other _

theorem sendInLoopBatch_other (w : World) (messages : List AbstractProtocol) :
    .closed .drained ∉ (w.sendInLoopBatch crc messages).2 := by
  unfold World.sendInLoopBatch
  split
  · simp
  split
  · simp
  dsimp only
  split
  · exact handleClose_other _ (by simp)
  split
  · split <;> simp
  · simp

theorem decodeInput_other (w : World) : .closed .drained ∉ (w.decodeInput crc).2 := by
  unfold World.decodeInput
  dsimp only
  split
  · exact handleClose_other _ (by simp)
  split
  · split <;> simp
  · simp

theorem handleRead_other {w w' : World} {results : List (Except Errno Bytes)}
    {es : List Event} (h : w.handleRead crc results = some (w', es)) :
    .closed .drained ∉ es := by
  unfold World.handleRead at h
  split at h
  · obtain ⟨rfl, rfl⟩ := Prod.mk.inj (Option.some.inj h)
    simp
  obtain ⟨⟨ended, b⟩, -, heq⟩ := Option.map_eq_some_iff.mp h
  cases ended with
  | failed e =>
    obtain ⟨rfl, rfl⟩ := Prod.mk.inj heq
    exact handleClose_other _ (by simp)
  | closed =>
    obtain ⟨rfl, rfl⟩ := Prod.mk.inj heq
    exact handleClose_other _ (by simp)
  | drained =>
    obtain ⟨rfl, rfl⟩ := Prod.mk.inj heq
    exact decodeInput_other _

theorem call_other (w : World) (c : Call) : .closed .drained ∉ (w.call crc c).2 := by
  cases c with
  | send message =>
    cases message with
    | none => simp [World.call]
    | some message =>
      simp only [World.call]
      split
      · simp
      · exact sendInLoopBatch_other w [message]
  | connectEstablished => exact connectEstablished_other w
  | connectInProgress cb =>
    simp only [World.call, World.connectInProgress]
    split
    · exact connectCallback_other w cb EISCONN
    · simp
  | connectDestroyed => exact close_other w (by simp)
  | shutdown | incrInFlight | decrInFlight | setDirectOutputFlush _ => simp [World.call]

theorem handleClose_events {w : World} (why : Why) (h : w.conn.state ≠ .closed) :
    ∃ post, (w.handleClose why).2 = .closed why :: post := by
  have hclose : (w.close why).2 = [.closed why] := if_neg h
  unfold World.handleClose
  rw [if_neg h]
  split
  · exact ⟨[.called .close], by rw [World.andThen, hclose]; rfl⟩
  · exact ⟨[], hclose⟩

/-- Where the last lines of `updateWriteInterest` close the connection. -/
theorem writeCompleted_drained {w : World} {allWritten : Bool}
    (h : .closed .drained ∈ (w.writeCompleted allWritten).2) :
    allWritten = true ∧ w.conn.state = .halfClosing ∧ w.conn.inFlight = 0 ∧
      ∃ post, (w.writeCompleted allWritten).2 = .closed .drained :: post := by
  unfold World.writeCompleted at h ⊢
  split at h
  · rename_i hcond
    rw [if_pos hcond]
    obtain ⟨⟨hall, hstate⟩, hflight⟩ : (allWritten = true ∧ w.conn.state = .halfClosing) ∧
        w.conn.inFlight = 0 := by simpa using hcond
    have hrec : w.recoverMark.conn.state = .halfClosing := by
      unfold World.recoverMark
      split <;> exact hstate
    exact ⟨hall, hstate, hflight, handleClose_events .drained (by simp [hrec])⟩
  · exact absurd h (by simp)

theorem updateWriteInterest_drained {w : World} {allWritten : Bool}
    (h : .closed .drained ∈ (w.updateWriteInterest allWritten).2) :
    allWritten = true ∧ w.conn.state = .halfClosing ∧
      ∃ post, (w.updateWriteInterest allWritten).2 = .closed .drained :: post := by
  unfold World.updateWriteInterest at h ⊢
  split at h
  · rename_i hall
    rw [if_pos hall]
    split at h
    · exact absurd h (by simp)
    · rename_i hcb
      rw [if_neg hcb]
      obtain ⟨-, hstate, -, hpost⟩ := writeCompleted_drained h
      refine ⟨hall, ?_, hpost⟩
      unfold World.disableWriting at hstate
      split at hstate <;> exact hstate
  · exact absurd (writeCompleted_drained h).1 (by simp)

/-- A flush that closes the connection has written everything. -/
theorem flush_drained {w w' : World} {results : List (Except Errno Nat)} {es : List Event}
    (h : w.flush results = some (w', es)) (hmem : .closed .drained ∈ es) :
    w.conn.state = .halfClosing ∧
      ∃ post, es = .accepted w.conn.outBuffer.readable :: .closed .drained :: post := by
  obtain ⟨⟨ended, out, bytes⟩, hflush, heq⟩ := Option.map_eq_some_iff.mp h
  have hbytes := flushLoop_spec hflush
  cases ended with
  | failed e =>
    obtain ⟨rfl, rfl⟩ := Prod.mk.inj heq
    rcases List.mem_append.mp hmem with hmem | hmem
    · exact absurd hmem (by simp)
    · exact absurd hmem (handleClose_other _ (by simp))
  | stopped =>
    simp only [World.andThen] at heq
    by_cases hclosed : (w.setOutBuffer out).conn.state = .closed
    · rw [if_pos hclosed] at heq
      obtain ⟨-, rfl⟩ := Prod.mk.inj heq
      exact absurd hmem (by simp)
    rw [if_neg hclosed] at heq
    obtain ⟨-, rfl⟩ := Prod.mk.inj heq
    have hmem : Event.closed .drained ∈ _ := (List.mem_append.mp hmem).resolve_left (by simp)
    obtain ⟨hall, hstate, post, hes⟩ := updateWriteInterest_drained hmem
    have hnil : out.readable = [] := (TcpBuffer.readable_eq_nil_iff out).mpr
      (by simpa [World.setOutBuffer] using hall)
    rw [hnil, List.append_nil] at hbytes
    refine ⟨hstate, post, ?_⟩
    rw [hes, hbytes]
    rfl

theorem drain_other (w : World) (round batch : Nat) (messages : List AbstractProtocol)
    (sees : Bool) : .closed .drained ∉ (w.drain crc round batch messages sees).2 := by
  unfold World.drain
  split
  · simp
  split
  · simp
  · exact sendInLoopBatch_other _ messages

/-- A step on which the graceful close closes the connection. The output buffer is empty
    then, and the account does not change. -/
theorem drained_step {w w' : World} {l : Label} {es : List Event}
    (hs : w.step crc l = some (w', es)) (hmem : .closed .drained ∈ es)
    (hempty : completes w l = true → w.conn.outBuffer.readable = []) :
    w.conn.state = .halfClosing ∧ (∀ a : Account, a.after crc w l = a) ∧
      ∃ pre post, es = pre ++ .closed .drained :: post ∧
        acceptedBytes pre = w.conn.outBuffer.readable := by
  cases acts_of_step hs with
  | read hstack hcb hread => exact absurd hmem (handleRead_other hread)
  | unread | write | unwritten | unfailed | task | returns | foreign =>
    exact absurd hmem (by simp)
  | finishWrite soError | finishError soError => exact absurd hmem (finish_other w _ soError)
  | fail soError hstack hcb => exact absurd hmem (handleClose_other w (by simp))
  | call c huser => exact absurd hmem (call_other w c)
  | @resume results sees frame stack _ _ hstack hresume =>
    have hafter : (∀ r b ms, frame ≠ .drain r b ms) →
        ∀ a : Account, a.after crc w (.resume results sees) = a := fun hnot a =>
      after_resume hstack hnot results sees
    cases frame with
    | user => exact absurd hresume (by simp [World.resume])
    | flush =>
      obtain ⟨hstate, post, rfl⟩ := flush_drained hresume hmem
      exact ⟨hstate, hafter (by simp), [.accepted _], post, rfl, acceptedBytes_singleton _⟩
    | writeCompleted =>
      obtain ⟨-, rfl⟩ := Prod.mk.inj (Option.some.inj hresume)
      obtain ⟨-, hstate, hflight, post, heq⟩ := writeCompleted_drained hmem
      refine ⟨hstate, hafter (by simp), [], post, heq, ?_⟩
      have hstate' : w.conn.state = .halfClosing := hstate
      have hflight' : w.conn.inFlight = 0 := hflight
      have hout := hempty (by simp [completes, hstack, hstate', hflight'])
      exact hout.symm
    | drain round batch ms =>
      obtain ⟨-, rfl⟩ := Prod.mk.inj (Option.some.inj hresume)
      exact absurd hmem (drain_other _ round batch ms sees)
    | connectDone cb =>
      obtain ⟨-, rfl⟩ := Prod.mk.inj (Option.some.inj hresume)
      exact absurd hmem (connectCallback_other _ cb 0)
    | sendFlush | restoreDefer _ | drainCheck | drainArm | drainQueue =>
      obtain ⟨-, rfl⟩ := Prod.mk.inj (Option.some.inj hresume)
      exact absurd hmem (by simp)

instance (crc : Bytes → UInt32) (x : Tracked) : DecidablePred (Graceful crc x) := fun l =>
  decidable_of_iff
    ((turns crc x.world l = true → (x.account.called l).Settled) ∧
      (pops x.world l = true → x.world.conn.state = .notConnected →
        ∀ e ∈ x.account.queue.head?, x.account.shut = true ∧ e ∉ x.account.owed) ∧
      (completes x.world l = true → x.world.conn.outBuffer.readable = []))
    ⟨fun h => ⟨h.1, h.2.1, h.2.2⟩, fun h => ⟨h.settles, h.waits, h.empties⟩⟩

/-- No step of a run that meets the condition drops a message that is owed. When the graceful
    close closes the connection, all that is owed is encoded, and the kernel has accepted all
    that is encoded. -/
theorem graceful_close (crc : Bytes → UInt32) (callbacks : Callbacks) (highWaterMark : Nat)
    (ls : List Label) (x x' : Tracked) (tr : List Event) (l : Label) (es : List Event)
    (hrun : run (Tracked.step crc) ⟨World.new callbacks highWaterMark, {}⟩ ls = some (x, tr))
    (hok : RunOk (Tracked.step crc) (Graceful crc) ⟨World.new callbacks highWaterMark, {}⟩ ls)
    (hlast : Graceful crc x l) (hs : x.step crc l = some (x', es)) :
    (∀ e ∈ x'.account.owed, e ∉ x'.account.dropped) ∧
      (.closed .drained ∈ es → (∀ e ∈ x'.account.owed, e ∈ x'.account.encoded) ∧
        ∃ pre post, es = pre ++ .closed .drained :: post ∧
          acceptedBytes (tr ++ pre) =
            frames (sealedAll crc (x'.account.encoded.map Sent.message))) := by
  have h : Along crc x tr := runOk_induction (Along crc)
    (fun _ _ _ _ _ h hok hs => step_along h hok hs) [] (along_new callbacks highWaterMark) hok hrun
  have h' := step_along h hlast hs
  refine ⟨fun e he hmem => (h'.safe.dropped e hmem).2 he, fun hmem => ?_⟩
  obtain ⟨hw, ha⟩ := x.step_world crc hs
  obtain ⟨hstate, hafter, pre, post, hes, hacc⟩ := drained_step hw hmem hlast.empties
  rw [hafter] at ha
  have hopen : x.world.conn.state ≠ .closed := by simp [hstate]
  obtain ⟨hqueue, -⟩ := h.settled (by simp [TcpConnection.rejects, hstate])
  have hbatch : x.account.batch = [] := by
    by_contra hne
    exact absurd (hstate.symm.trans (h.tracks.round.connected hne)) (by simp)
  rw [ha]
  refine ⟨fun e he => ?_, pre, post, hes, ?_⟩
  · rcases h.safe.owed hopen e he with hin | hin | hin
    · exact absurd he (hqueue e hin)
    · simp [hbatch] at hin
    · exact hin
  · rw [acceptedBytes_append, hacc, h.ledger hopen, h.tracks.encoded]

/-- Another thread sends, the drain encodes its message, and only then the loop shuts down. -/
def drainedBefore : List Label :=
  [.call .connectEstablished, .foreign 1 (.send (some (.tinyPB { msgId := [49] }))),
    .foreign 1 .goOn, .foreign 1 .goOn, .foreign 1 .goOn, .foreign 1 .goOn, .task,
    .resume [] true, .resume [] true, .resume [] true, .resume [] true, .resume [] true,
    .resume [] true, .resume [] true, .call .shutdown, .task]

theorem graceful_close_drained_before :
    ∃ x tr x' es, run (Tracked.step fun _ => 0)
        ⟨World.new ⟨true, false, true, false, false⟩ 0, {}⟩ drainedBefore = some (x, tr) ∧
      x.step (fun _ => 0) (.resume [.ok 27] false) = some (x', es) ∧
      .closed .drained ∈ es ∧ x'.account.owed ≠ [] ∧
      (∀ e ∈ x'.account.owed, e ∈ x'.account.encoded) := by
  have hrun : ((run (Tracked.step fun _ => 0) ⟨World.new ⟨true, false, true, false, false⟩ 0, {}⟩
      drainedBefore).bind fun r => (r.1.step (fun _ => 0) (.resume [.ok 27] false)).map fun s =>
        decide (Graceful (fun _ => 0) r.1 (.resume [.ok 27] false) ∧ .closed .drained ∈ s.2 ∧
          s.1.account.owed ≠ [])) = some true := by
    decide +kernel
  obtain ⟨⟨x, tr⟩, hx, hlast⟩ := Option.bind_eq_some_iff.mp hrun
  obtain ⟨⟨x', es⟩, hs, heq⟩ := Option.map_eq_some_iff.mp hlast
  obtain ⟨hok, hmem, howed⟩ := of_decide_eq_true heq
  have hclose := graceful_close (fun _ => 0) _ 0 drainedBefore x x' tr _ es hx
    (by decide +kernel) hok hs
  exact ⟨x, tr, x', es, hx, hs, hmem, howed, (hclose.2 hmem).1⟩

/-- A message that another thread has sent waits for its drain while the loop shuts down. -/
def shutBeforeDrain : List Label :=
  [.call .connectEstablished, .foreign 1 (.send (some (.tinyPB { msgId := [49] }))),
    .foreign 1 .goOn, .foreign 1 .goOn, .foreign 1 .goOn, .foreign 1 .goOn, .call .shutdown,
    .task, .resume [] true]

/-- The write-complete callback sends and shuts down: the connection closes behind it. -/
def sentInCallback : List Label :=
  [.call .connectEstablished, .call (.send (some (.tinyPB { msgId := [49] }))), .resume [] false,
    .task, .resume [.ok 27] false, .call (.send (some (.tinyPB { msgId := [50] }))),
    .resume [] false, .call .shutdown, .returns, .resume [] false]

/-- Neither run has a socket error or sees the peer close. In the first the drain drops a message
    whose `send` had returned before `shutdown` was called; in the second the graceful close
    leaves bytes of one in the output buffer. -/
theorem graceful_close_loses :
    (∃ x tr, run (Tracked.step fun _ => 0) ⟨World.new ⟨true, false, true, false, false⟩ 0, {}⟩
        shutBeforeDrain = some (x, tr) ∧
      ∃ e ∈ x.account.owed, e ∈ x.account.dropped) ∧
    ∃ x tr, run (Tracked.step fun _ => 0) ⟨World.new ⟨true, false, true, true, false⟩ 0, {}⟩
        sentInCallback = some (x, tr) ∧ .closed .drained ∈ tr ∧
      (acceptedBytes tr).length <
        (frames (sealedAll (fun _ => 0) (x.account.owed.map Sent.message))).length := by
  have hdrop : (run (Tracked.step fun _ => 0)
      ⟨World.new ⟨true, false, true, false, false⟩ 0, {}⟩ shutBeforeDrain).map
      (fun r => decide (∃ e ∈ r.1.account.owed, e ∈ r.1.account.dropped)) = some true := by
    decide +kernel
  have hleft : (run (Tracked.step fun _ => 0)
      ⟨World.new ⟨true, false, true, true, false⟩ 0, {}⟩ sentInCallback).map
      (fun r => decide (.closed .drained ∈ r.2 ∧ (acceptedBytes r.2).length <
        (frames (sealedAll (fun _ => 0) (r.1.account.owed.map Sent.message))).length)) =
      some true := by
    decide +kernel
  obtain ⟨⟨x, tr⟩, hx, heq⟩ := Option.map_eq_some_iff.mp hdrop
  obtain ⟨⟨y, tr'⟩, hy, heq'⟩ := Option.map_eq_some_iff.mp hleft
  exact ⟨⟨x, tr, hx, of_decide_eq_true heq⟩, y, tr', hy, of_decide_eq_true heq'⟩

end RocketRpc.Net
