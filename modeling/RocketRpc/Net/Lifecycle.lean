import RocketRpc.Net.ArmedOutput
import RocketRpc.Net.CloseCallback
import RocketRpc.Net.Delivery

/-
  The life of a connection: its state, and the callbacks that are called once.

  The state only moves forward, and the connection callback and the close callback go with one
  move each. The callback of `connectInProgress` belongs to a call: a ledger beside the
  connection numbers the calls, and notes which of them the `finish` in the descriptor belongs
  to and whose callback was called. Each function of the connection has one lemma
  (`…_onward`), and `step_lives` puts them together.
-/

namespace RocketRpc.Net

open RocketRpc.Tcp RocketRpc.Coder Machine

variable {crc : Bytes → UInt32}

/-- The order of the states. -/
def TcpState.rank : TcpState → Nat
  | .notConnected => 0
  | .connected => 1
  | .halfClosing => 2
  | .closed => 3

theorem TcpState.rank_le (s : TcpState) : s.rank ≤ 3 := by
  cases s <;> decide

/-- `finish` of a `connectInProgress` is set. -/
def FdEvent.Connecting (e : FdEvent) : Prop :=
  (∃ cb, e.writeCallback = some (.finish cb)) ∨ ∃ cb, e.errorCallback = some (.finish cb)

def Frame.isConnectDone : Frame → Bool
  | .connectDone _ => true
  | _ => false

/-- A callback of `connectInProgress` is called. -/
def Event.isConnect : Event → Bool
  | .called (.connect _) => true
  | _ => false

/-- How often the connection callback may still be called. -/
def World.connectable (w : World) : Nat := if w.conn.state = .notConnected then 1 else 0

theorem connectable_le {w w' : World} (h : w.conn.state.rank ≤ w'.conn.state.rank) :
    w'.connectable ≤ w.connectable := by
  unfold World.connectable
  by_cases hnot : w'.conn.state = .notConnected
  · have hzero : w.conn.state.rank = 0 := by
      rw [hnot] at h
      exact Nat.le_zero.mp h
    have hwas : w.conn.state = .notConnected := by
      revert hzero
      cases w.conn.state <;> simp [TcpState.rank]
    rw [if_pos hwas]
    exact Nat.le_of_eq (if_pos hnot)
  · rw [if_neg hnot]
    exact Nat.zero_le _

/-! ## What each function does -/

/-- The state moves forward, with the connection callback where it leaves `NotConnected`; no
    `finish` is set, none of its frames is left, and `n` callbacks of connects are called. -/
structure Onward (n : Nat) (w w' : World) (es : List Event) : Prop where
  state : w.conn.state.rank ≤ w'.conn.state.rank
  connection : es.count (.called .connection) + w'.connectable ≤ w.connectable
  connecting : w'.conn.fdEvent.Connecting → w.conn.fdEvent.Connecting
  stack : ∃ fs, w'.stack = fs ++ w.stack ∧ ∀ f ∈ fs, f.isConnectDone = false
  connects : es.countP Event.isConnect = n

theorem Onward.refl (w : World) : Onward 0 w w [] :=
  ⟨Nat.le_refl _, by simp, id, ⟨[], rfl, by simp⟩, rfl⟩

theorem Onward.trans {m n : Nat} {w w₁ w₂ : World} {es fs : List Event} (h : Onward m w w₁ es)
    (h' : Onward n w₁ w₂ fs) : Onward (m + n) w w₂ (es ++ fs) := by
  obtain ⟨gs, hgs, hdone⟩ := h.stack
  obtain ⟨gs', hgs', hdone'⟩ := h'.stack
  have hconn := h.connection
  have hconn' := h'.connection
  refine ⟨Nat.le_trans h.state h'.state, ?_, h.connecting ∘ h'.connecting, ⟨gs' ++ gs, ?_, ?_⟩, ?_⟩
  · rw [List.count_append]
    omega
  · rw [hgs', hgs, List.append_assoc]
  · intro f hf
    exact (List.mem_append.mp hf).elim (hdone' f) (hdone f)
  · rw [List.countP_append, h.connects, h'.connects]

theorem onward_of_same {w w' : World} {es : List Event}
    (hstate : w'.conn.state = w.conn.state) (hfd : w'.conn.fdEvent = w.conn.fdEvent)
    (hstack : ∃ fs, w'.stack = fs ++ w.stack ∧ ∀ f ∈ fs, f.isConnectDone = false)
    (hes : es.count (.called .connection) = 0) (hcon : es.countP Event.isConnect = 0) :
    Onward 0 w w' es := by
  have hrank : w.conn.state.rank ≤ w'.conn.state.rank := Nat.le_of_eq (by rw [hstate])
  refine ⟨hrank, ?_, fun h => hfd ▸ h, hstack, hcon⟩
  rw [hes, Nat.zero_add]
  exact connectable_le hrank

theorem onward_push (w : World) {fs : List Frame} {es : List Event}
    (hfs : ∀ f ∈ fs, f.isConnectDone = false) (hes : es.count (.called .connection) = 0)
    (hcon : es.countP Event.isConnect = 0) : Onward 0 w (w.push fs) es :=
  onward_of_same rfl rfl ⟨fs, rfl, hfs⟩ hes hcon

/-- The state moves forward, and no callback is called. -/
theorem onward_of_state {w w' : World} {es : List Event}
    (hstate : w.conn.state.rank ≤ w'.conn.state.rank)
    (hconnecting : w'.conn.fdEvent.Connecting → w.conn.fdEvent.Connecting)
    (hstack : w'.stack = w.stack) (hes : es.count (.called .connection) = 0)
    (hcon : es.countP Event.isConnect = 0) : Onward 0 w w' es := by
  refine ⟨hstate, ?_, hconnecting, ⟨[], hstack, by simp⟩, hcon⟩
  rw [hes, Nat.zero_add]
  exact connectable_le hstate

theorem not_connecting_empty : ¬ FdEvent.Connecting {} := by
  rintro (⟨cb, h⟩ | ⟨cb, h⟩) <;> exact absurd h (by simp)

theorem close_onward (w : World) (why : Why) : Onward 0 w (w.close why).1 (w.close why).2 := by
  refine onward_of_state (TcpState.rank_le _) (fun h => absurd h not_connecting_empty) rfl ?_ ?_
  · unfold World.close
    split <;> simp
  · unfold World.close
    split <;> rfl

theorem handleClose_onward (w : World) (why : Why) :
    Onward 0 w (w.handleClose why).1 (w.handleClose why).2 := by
  unfold World.handleClose
  split
  · exact .refl w
  split
  · exact (close_onward w why).trans
      (onward_push _ (by simp [Frame.isConnectDone]) (by simp) rfl)
  · exact close_onward w why

theorem scheduleOutputFlush_onward (w : World) : Onward 0 w w.scheduleOutputFlush [] := by
  unfold World.scheduleOutputFlush
  split
  · exact .refl w
  · exact onward_of_same rfl rfl ⟨[], rfl, by simp⟩ rfl rfl

theorem sendFlush_onward (w : World) : Onward 0 w w.sendFlush [] := by
  unfold World.sendFlush
  split
  · exact onward_push w (by simp [Frame.isConnectDone]) rfl rfl
  · exact scheduleOutputFlush_onward w

theorem sendInLoopBatch_onward (w : World) (messages : List AbstractProtocol) :
    Onward 0 w (w.sendInLoopBatch crc messages).1 (w.sendInLoopBatch crc messages).2 := by
  unfold World.sendInLoopBatch
  split
  · exact .refl w
  split
  · exact .refl w
  dsimp only
  have hout : ∀ b, Onward 0 w (w.setOutBuffer b) [] :=
    fun _ => onward_of_same rfl rfl ⟨[], rfl, by simp⟩ rfl rfl
  split
  · exact (hout _).trans (handleClose_onward _ .encode)
  split
  · split
    · exact onward_of_same rfl rfl ⟨[.user, .sendFlush], rfl, by simp [Frame.isConnectDone]⟩
        (by simp) rfl
    · exact onward_of_same rfl rfl ⟨[.sendFlush], rfl, by simp [Frame.isConnectDone]⟩ (by simp) rfl
  · exact onward_of_same rfl rfl ⟨[.sendFlush], rfl, by simp [Frame.isConnectDone]⟩ (by simp) rfl

theorem recoverMark_onward (w : World) : Onward 0 w w.recoverMark [] := by
  unfold World.recoverMark
  split
  · exact onward_of_same rfl rfl ⟨[], rfl, by simp⟩ rfl rfl
  · exact .refl w

theorem writeCompleted_onward (w : World) (allWritten : Bool) :
    Onward 0 w (w.writeCompleted allWritten).1 (w.writeCompleted allWritten).2 := by
  unfold World.writeCompleted
  split
  · exact (recoverMark_onward w).trans (handleClose_onward _ .drained)
  · exact recoverMark_onward w

theorem setWriteCallback_onward (w : World) {callback : Option WriteCallback}
    (hcb : ∀ cb, callback ≠ some (.finish cb)) :
    Onward 0 w (w.setWriteCallback callback) [] :=
  onward_of_state (Nat.le_refl _) (fun h => Or.inr (h.resolve_left fun ⟨cb, hw⟩ => hcb cb hw)) rfl
    rfl rfl

theorem disableWriting_onward (w : World) : Onward 0 w w.disableWriting [] := by
  unfold World.disableWriting
  split
  · exact setWriteCallback_onward w (by simp)
  · exact .refl w

theorem enableWriting_onward (w : World) : Onward 0 w w.enableWriting [] := by
  unfold World.enableWriting
  split
  · exact .refl w
  · exact setWriteCallback_onward w (by simp)

theorem updateWriteInterest_onward (w : World) (allWritten : Bool) :
    Onward 0 w (w.updateWriteInterest allWritten).1 (w.updateWriteInterest allWritten).2 := by
  unfold World.updateWriteInterest
  split
  · split
    · exact (disableWriting_onward w).trans
        (onward_push _ (by simp [Frame.isConnectDone]) (by simp) rfl)
    · exact (disableWriting_onward w).trans (writeCompleted_onward _ true)
  · exact (enableWriting_onward w).trans (writeCompleted_onward _ false)

theorem flush_onward {w w' : World} {results : List (Except Errno Nat)} {es : List Event}
    (h : w.flush results = some (w', es)) : Onward 0 w w' es := by
  obtain ⟨⟨ended, out, bytes⟩, -, heq⟩ := Option.map_eq_some_iff.mp h
  have hset : Onward 0 w (w.setOutBuffer out) [.accepted bytes] :=
    onward_of_same rfl rfl ⟨[], rfl, by simp⟩ (by simp) rfl
  cases ended with
  | failed e =>
    obtain ⟨rfl, rfl⟩ := Prod.mk.inj heq
    exact hset.trans (handleClose_onward _ (.writeError e))
  | stopped =>
    obtain ⟨rfl, rfl⟩ := Prod.mk.inj heq
    refine hset.trans (n := 0) ?_
    dsimp only
    split
    · exact .refl _
    · exact updateWriteInterest_onward _ _

theorem handleWrite_onward (w : World) : Onward 0 w w.handleWrite [] := by
  unfold World.handleWrite
  split
  · exact onward_push w (by simp [Frame.isConnectDone]) rfl rfl
  · exact .refl w

theorem decodeInput_onward (w : World) :
    Onward 0 w (w.decodeInput crc).1 (w.decodeInput crc).2 := by
  unfold World.decodeInput
  dsimp only
  have hin : Onward 0 w (w.setInBuffer (decode crc w.conn.inBuffer).2) [] :=
    onward_of_same rfl rfl ⟨[], rfl, by simp⟩ rfl rfl
  split
  · exact hin.trans (handleClose_onward _ .decode)
  split
  · split
    · exact onward_of_same rfl rfl ⟨_, rfl, by simp [Frame.isConnectDone]⟩ (by simp) rfl
    · exact onward_of_same rfl rfl ⟨_, rfl, by simp [Frame.isConnectDone]⟩ (by simp) rfl
  · exact hin

theorem handleRead_onward {w w' : World} {results : List (Except Errno Bytes)}
    {es : List Event} (h : w.handleRead crc results = some (w', es)) : Onward 0 w w' es := by
  unfold World.handleRead at h
  split at h
  · obtain ⟨rfl, rfl⟩ := Prod.mk.inj (Option.some.inj h)
    exact .refl w
  obtain ⟨⟨ended, b⟩, -, heq⟩ := Option.map_eq_some_iff.mp h
  have hin : Onward 0 w (w.setInBuffer b) [] := onward_of_same rfl rfl ⟨[], rfl, by simp⟩ rfl rfl
  cases ended with
  | failed e =>
    obtain ⟨rfl, rfl⟩ := Prod.mk.inj heq
    exact hin.trans (handleClose_onward _ (.readError e))
  | closed =>
    obtain ⟨rfl, rfl⟩ := Prod.mk.inj heq
    exact hin.trans (handleClose_onward _ .eof)
  | drained =>
    obtain ⟨rfl, rfl⟩ := Prod.mk.inj heq
    exact hin.trans (decodeInput_onward _)

theorem shutdownInLoop_onward (w : World) : Onward 0 w w.shutdownInLoop [] := by
  unfold World.shutdownInLoop
  split
  · exact .refl w
  · rename_i hopen
    refine onward_of_state ?_ id rfl rfl rfl
    cases hs : w.conn.state <;> simp_all [TcpState.rank]

theorem connectEstablished_onward (w : World) :
    Onward 0 w w.connectEstablished.1 w.connectEstablished.2 := by
  unfold World.connectEstablished
  split
  · exact .refl w
  rename_i hnot
  have hstate : w.conn.state = .notConnected := by simpa using hnot
  have hrank : w.conn.state.rank ≤ TcpState.connected.rank := by rw [hstate]; decide
  have hwrite : ∀ e : FdEvent, e.writeCallback = w.conn.fdEvent.writeCallback →
      e.errorCallback = some .handleError → e.Connecting → w.conn.fdEvent.Connecting := by
    rintro e hw he (⟨cb, hcb⟩ | ⟨cb, hcb⟩)
    · exact Or.inl ⟨cb, hw ▸ hcb⟩
    · exact absurd (he.symm.trans hcb) (by simp)
  dsimp only
  split
  · refine ⟨hrank, ?_, hwrite _ rfl rfl, ⟨[.user], rfl, by simp [Frame.isConnectDone]⟩, rfl⟩
    simp [World.connectable, hstate, World.push]
  · exact onward_of_state hrank (hwrite _ rfl rfl) rfl rfl rfl

/-- How often a connect calls back. -/
def connectCalls (cb : Bool) : Nat := if cb then 1 else 0

theorem connectCallback_onward (w : World) (cb : Bool) (errorCode : Nat) :
    Onward (connectCalls cb) w (w.connectCallback cb errorCode).1
      (w.connectCallback cb errorCode).2 := by
  unfold World.connectCallback
  cases cb with
  | true =>
    exact ⟨Nat.le_refl _, by simp [World.connectable, World.push], id,
      ⟨[.user], rfl, by simp [Frame.isConnectDone]⟩, rfl⟩
  | false => exact .refl w

theorem drain_onward (w : World) (round batch : Nat) (messages : List AbstractProtocol)
    (sees : Bool) : Onward 0 w (w.drain crc round batch messages sees).1
      (w.drain crc round batch messages sees).2 := by
  unfold World.drain
  split
  · exact onward_of_same rfl rfl ⟨[.drainCheck], rfl, by simp [Frame.isConnectDone]⟩ rfl rfl
  split
  · exact onward_of_same rfl rfl ⟨[_], rfl, by simp [Frame.isConnectDone]⟩ rfl rfl
  · have hpush : Onward 0 w (w.push [.drain (round + 1) 0 []]) [] :=
      onward_push w (by simp [Frame.isConnectDone]) rfl rfl
    exact hpush.trans (sendInLoopBatch_onward _ messages)

theorem runTask_onward (w : World) (task : Task) : Onward 0 w (w.runTask task) [] := by
  cases task with
  | drain => exact onward_push w (by simp [Frame.isConnectDone]) rfl rfl
  | flush =>
    have hreset : Onward 0 w { w with conn := { w.conn with flushQueued := false } } [] :=
      onward_of_same rfl rfl ⟨[], rfl, by simp⟩ rfl rfl
    exact hreset.trans (handleWrite_onward _)
  | shutdown => exact shutdownInLoop_onward w

/-- Other threads change neither the state nor the stack of the loop. -/
theorem foreign_onward {w w' : World} {t : ThreadId} {sender : Sender} {f : Foreign}
    (h : w.foreign t sender f = some w') : Onward 0 w w' [] := by
  have hsame : ∀ {v : World}, v.conn.state = w.conn.state → v.conn.fdEvent = w.conn.fdEvent →
      v.stack = w.stack → Onward 0 w v [] := fun hstate hfd hstack =>
    onward_of_same hstate hfd ⟨[], hstack, by simp⟩ rfl rfl
  cases foreignSteps_of_foreign h <;> exact hsame rfl rfl rfl

/-! ## Which call a connect callback belongs to -/

/-- The calls of `connectInProgress`, by their numbers. -/
structure ConnectLedger where
  calls : Nat := 0
  /-- The call whose `finish` was set last. -/
  stored : Nat := 0
  /-- The calls whose `finish` has come to `connectEstablished`, the last one first. -/
  pending : List Nat := []
  /-- The calls whose callback was called. -/
  invoked : List Nat := []
  deriving DecidableEq, Repr

namespace ConnectLedger

def invoke (a : ConnectLedger) (cb : Bool) (n : Nat) : ConnectLedger :=
  if cb then { a with invoked := a.invoked ++ [n] } else a

def connectInProgress (a : ConnectLedger) (w : World) (cb : Bool) : ConnectLedger :=
  if w.conn.state ≠ .notConnected then { a with calls := a.calls + 1 }.invoke cb a.calls
  else { a with calls := a.calls + 1, stored := a.calls }

def finish (a : ConnectLedger) (cb : Bool) (soError : Nat) : ConnectLedger :=
  if soError ≠ 0 then a.invoke cb a.stored else { a with pending := a.stored :: a.pending }

def connectDone (a : ConnectLedger) (cb : Bool) : ConnectLedger :=
  match a.pending with
  | n :: pending => { a with pending }.invoke cb n
  | [] => a

/-- The ledger after a step that the connection takes from `w`. -/
def after (a : ConnectLedger) (w : World) : Label → ConnectLedger
  | .call (.connectInProgress cb) => a.connectInProgress w cb
  | .writable soError =>
    match w.conn.fdEvent.writeCallback with
    | some (.finish cb) => a.finish cb soError
    | _ => a
  | .error soError =>
    match w.conn.fdEvent.errorCallback with
    | some (.finish cb) => a.finish cb soError
    | _ => a
  | .resume _ _ =>
    match w.stack with
    | .connectDone cb :: _ => a.connectDone cb
    | _ => a
  | _ => a

end ConnectLedger

/-- A connection with the ledger of its connects, which only watches. -/
structure Lived where
  world : World
  ledger : ConnectLedger := {}

variable (crc) in
def Lived.step (x : Lived) (l : Label) : Option (Lived × List Event) :=
  (x.world.step crc l).map fun r => (⟨r.1, x.ledger.after x.world l⟩, r.2)

/-- The frames of connects that are to call back. -/
def World.connectsDone (w : World) : Nat := w.stack.countP Frame.isConnectDone

/-- Every call is noted once at most. -/
structure Ledgered (w : World) (a : ConnectLedger) : Prop where
  pending : a.pending.length = w.connectsDone
  nodup : (a.invoked ++ a.pending).Nodup
  old : ∀ n ∈ a.invoked ++ a.pending, n < a.calls
  stored : w.conn.fdEvent.Connecting → a.stored < a.calls ∧ a.stored ∉ a.invoked ++ a.pending

theorem Onward.connectsDone {n : Nat} {w w' : World} {es : List Event} (h : Onward n w w' es) :
    w'.connectsDone = w.connectsDone := by
  obtain ⟨fs, hfs, hdone⟩ := h.stack
  have hzero : fs.countP Frame.isConnectDone = 0 :=
    List.countP_eq_zero.mpr fun f hf => by simp [hdone f hf]
  rw [World.connectsDone, World.connectsDone, hfs, List.countP_append, hzero, Nat.zero_add]

@[simp] theorem invoke_length (a : ConnectLedger) (cb : Bool) (n : Nat) :
    (a.invoke cb n).invoked.length = a.invoked.length + connectCalls cb := by
  cases cb
  · rfl
  · simp [ConnectLedger.invoke, connectCalls]

section Ledgered

variable {w w' : World} {a : ConnectLedger} (h : Ledgered w a)

include h

/-- A step that sets no `finish` and leaves the frames of connects alone. -/
theorem Ledgered.of_same (hdone : w'.connectsDone = w.connectsDone)
    (hconnecting : w'.conn.fdEvent.Connecting → w.conn.fdEvent.Connecting) : Ledgered w' a :=
  ⟨h.pending.trans hdone.symm, h.nodup, h.old, fun hc => h.stored (hconnecting hc)⟩

/-- The callback of a call that is not noted yet is called. -/
theorem Ledgered.invoke (hdone : w'.connectsDone = w.connectsDone)
    (cb : Bool) {n : Nat} (hn : n < a.calls) (hnew : n ∉ a.invoked ++ a.pending)
    (hconnecting : w'.conn.fdEvent.Connecting → w.conn.fdEvent.Connecting ∧ a.stored ≠ n) :
    Ledgered w' (a.invoke cb n) := by
  unfold ConnectLedger.invoke
  cases cb with
  | false => exact h.of_same hdone fun hc => (hconnecting hc).1
  | true =>
    have hperm : (a.invoked ++ [n] ++ a.pending).Perm (n :: (a.invoked ++ a.pending)) := by
      rw [List.append_assoc]
      exact List.perm_middle
    refine ⟨h.pending.trans hdone.symm, ?_, fun m hm => ?_, fun hc => ?_⟩
    · exact hperm.nodup_iff.mpr (List.nodup_cons.mpr ⟨hnew, h.nodup⟩)
    · rcases List.mem_cons.mp (hperm.subset hm) with rfl | hm
      · exact hn
      · exact h.old m hm
    · obtain ⟨hwas, hne⟩ := hconnecting hc
      obtain ⟨hlt, hnot⟩ := h.stored hwas
      exact ⟨hlt, fun hm => (List.mem_cons.mp (hperm.subset hm)).elim hne hnot⟩

/-- A call gets a number that is new. -/
theorem Ledgered.fresh : Ledgered w { a with calls := a.calls + 1 } :=
  ⟨h.pending, h.nodup, fun n hn => Nat.lt_succ_of_lt (h.old n hn),
    fun hc => ⟨Nat.lt_succ_of_lt (h.stored hc).1, (h.stored hc).2⟩⟩

theorem Ledgered.connectInProgress (cb : Bool) :
    Ledgered (w.connectInProgress cb).1 (a.connectInProgress w cb) := by
  have hnew : a.calls ∉ a.invoked ++ a.pending := fun hmem => Nat.lt_irrefl _ (h.old _ hmem)
  unfold World.connectInProgress ConnectLedger.connectInProgress
  split
  · have hcall := connectCallback_onward w cb EISCONN
    exact h.fresh.invoke hcall.connectsDone cb (Nat.lt_succ_self _) hnew fun hc =>
      ⟨hcall.connecting hc, Nat.ne_of_lt (h.stored (hcall.connecting hc)).1⟩
  · exact ⟨h.pending, h.nodup, fun n hn => Nat.lt_succ_of_lt (h.old n hn),
      fun _ => ⟨Nat.lt_succ_self _, hnew⟩⟩

/-- `finish` clears the descriptor, and its call is noted. -/
theorem Ledgered.finish (hconnecting : w.conn.fdEvent.Connecting) (cb : Bool) (soError : Nat) :
    Ledgered (w.finish cb soError).1 (a.finish cb soError) := by
  obtain ⟨hlt, hnot⟩ := h.stored hconnecting
  unfold World.finish ConnectLedger.finish
  split
  · have hclose := close_onward w.clearCallbacks .connectFailed
    have hcall := connectCallback_onward (w.clearCallbacks.close .connectFailed).1 cb soError
    exact h.invoke (hcall.connectsDone.trans hclose.connectsDone) cb hlt hnot fun hc =>
      absurd (hcall.connecting hc) not_connecting_empty
  · have hest := connectEstablished_onward (w.clearCallbacks.push [.connectDone cb])
    refine ⟨?_, ?_, ?_, fun hc => absurd (hest.connecting hc) not_connecting_empty⟩
    · rw [hest.connectsDone, List.length_cons, h.pending]
      exact (List.countP_cons_of_pos rfl).symm
    · exact List.perm_middle.nodup_iff.mpr (List.nodup_cons.mpr ⟨hnot, h.nodup⟩)
    · intro n hn
      rcases List.mem_cons.mp (List.perm_middle.subset hn) with rfl | hn
      · exact hlt
      · exact h.old n hn

theorem Ledgered.pending_cons {cb : Bool} {stack : List Frame}
    (hstack : w.stack = .connectDone cb :: stack) : ∃ n pending, a.pending = n :: pending := by
  have hlen := h.pending
  rw [World.connectsDone, hstack, List.countP_cons_of_pos rfl] at hlen
  exact List.exists_cons_of_length_eq_add_one hlen

theorem Ledgered.connectDone_length {cb : Bool} {stack : List Frame}
    (hstack : w.stack = .connectDone cb :: stack) :
    (a.connectDone cb).invoked.length = a.invoked.length + connectCalls cb := by
  obtain ⟨n, pending, hp⟩ := h.pending_cons hstack
  rw [ConnectLedger.connectDone, hp, invoke_length]

/-- The frame behind `connectEstablished` calls back for the call it belongs to. -/
theorem Ledgered.connectDone {cb : Bool} {stack : List Frame}
    (hstack : w.stack = .connectDone cb :: stack) :
    Ledgered ({ w with stack }.connectCallback cb 0).1 (a.connectDone cb) := by
  obtain ⟨n, pending, hp⟩ := h.pending_cons hstack
  have hlen := h.pending
  rw [World.connectsDone, hstack, List.countP_cons_of_pos rfl] at hlen
  have hnodup := h.nodup
  have hold := h.old
  rw [hp] at hnodup hold hlen
  have hsplit := List.nodup_cons.mp (List.perm_middle.nodup_iff.mp hnodup)
  have hpopped : Ledgered { w with stack } { a with pending } :=
    ⟨Nat.succ.inj hlen, hsplit.2,
      fun m hm => hold m (List.perm_middle.symm.subset (List.mem_cons_of_mem n hm)), fun hc => by
        obtain ⟨hlt, hnot⟩ := h.stored hc
        rw [hp] at hnot
        exact ⟨hlt, fun hm => hnot (List.perm_middle.symm.subset (List.mem_cons_of_mem n hm))⟩⟩
  have hcall := connectCallback_onward { w with stack } cb 0
  have hn : n < a.calls := hold n (List.mem_append_right _ List.mem_cons_self)
  unfold ConnectLedger.connectDone
  rw [hp]
  refine hpopped.invoke hcall.connectsDone cb hn hsplit.1 fun hc => ⟨hcall.connecting hc, ?_⟩
  rintro rfl
  refine (h.stored (hcall.connecting hc)).2 ?_
  rw [hp]
  exact List.mem_append_right _ List.mem_cons_self

end Ledgered

/-! ## A step -/

/-- What a step does to the life of the connection. -/
structure Advances (w w' : World) (a a' : ConnectLedger) (es : List Event) : Prop where
  state : w.conn.state.rank ≤ w'.conn.state.rank
  connection : es.count (.called .connection) + w'.connectable ≤ w.connectable
  ledger : Ledgered w' a'
  connects : a'.invoked.length = a.invoked.length + es.countP Event.isConnect

theorem Onward.advances {w w' : World} {a : ConnectLedger} {es : List Event}
    (h : Onward 0 w w' es) (ha : Ledgered w a) : Advances w w' a a es :=
  ⟨h.state, h.connection, ha.of_same h.connectsDone h.connecting, by rw [h.connects, Nat.add_zero]⟩

theorem connectInProgress_advances {w : World} {a : ConnectLedger} (ha : Ledgered w a) (cb : Bool) :
    Advances w (w.connectInProgress cb).1 a (a.connectInProgress w cb)
      (w.connectInProgress cb).2 := by
  have hledger := ha.connectInProgress cb
  by_cases hstate : w.conn.state ≠ .notConnected
  · have hcall := connectCallback_onward w cb EISCONN
    have hw : w.connectInProgress cb = w.connectCallback cb EISCONN := if_pos hstate
    have hafter : a.connectInProgress w cb =
        { a with calls := a.calls + 1 }.invoke cb a.calls := if_pos hstate
    refine ⟨?_, ?_, hledger, ?_⟩
    · rw [hw]
      exact hcall.state
    · rw [hw]
      exact hcall.connection
    · rw [hafter, invoke_length, hw, hcall.connects]
  · have hw : w.connectInProgress cb = _ := if_neg hstate
    have hafter : a.connectInProgress w cb = _ := if_neg hstate
    refine ⟨?_, ?_, hledger, ?_⟩
    · exact Nat.le_of_eq (by rw [hw])
    · rw [hw]
      exact Nat.le_of_eq (Nat.zero_add w.connectable)
    · rw [hafter, hw]
      rfl

theorem call_advances {w : World} {a : ConnectLedger} (ha : Ledgered w a) (c : Call) :
    Advances w (w.call crc c).1 a (a.after w (.call c)) (w.call crc c).2 := by
  cases c with
  | send message =>
    cases message with
    | none => exact (Onward.refl w).advances ha
    | some message =>
      simp only [World.call]
      split
      · exact (Onward.refl w).advances ha
      · exact (sendInLoopBatch_onward w [message]).advances ha
  | shutdown => exact (shutdownInLoop_onward w).advances ha
  | connectEstablished => exact (connectEstablished_onward w).advances ha
  | connectInProgress cb => exact connectInProgress_advances ha cb
  | connectDestroyed => exact (close_onward w .destroyed).advances ha
  | incrInFlight | decrInFlight | setDirectOutputFlush enabled =>
    exact ⟨Nat.le_refl _, Nat.le_of_eq (Nat.zero_add _), ha.of_same rfl id, rfl⟩

theorem finish_advances {w : World} {a : ConnectLedger} (ha : Ledgered w a)
    (hconnecting : w.conn.fdEvent.Connecting) (cb : Bool) (soError : Nat) :
    Advances w (w.finish cb soError).1 a (a.finish cb soError) (w.finish cb soError).2 := by
  have hledger := ha.finish hconnecting cb soError
  have hclear : Onward 0 w w.clearCallbacks [] :=
    onward_of_state (Nat.le_refl _) (fun h => absurd h not_connecting_empty) rfl rfl rfl
  by_cases herr : soError ≠ 0
  · have hcall := hclear.trans ((close_onward w.clearCallbacks .connectFailed).trans
      (connectCallback_onward _ cb soError))
    have hw : w.finish cb soError = _ := if_pos herr
    have hafter : a.finish cb soError = a.invoke cb a.stored := if_pos herr
    refine ⟨?_, ?_, hledger, ?_⟩
    · rw [hw]
      exact hcall.state
    · rw [hw]
      exact hcall.connection
    · rw [hafter, invoke_length, hw]
      exact congrArg _
        ((Nat.zero_add _).symm.trans ((Nat.zero_add _).symm.trans hcall.connects.symm))
  · have hest := connectEstablished_onward (w.clearCallbacks.push [.connectDone cb])
    have hw : w.finish cb soError = _ := if_neg herr
    have hafter : a.finish cb soError = _ := if_neg herr
    refine ⟨?_, ?_, hledger, ?_⟩
    · rw [hw]
      exact hest.state
    · rw [hw]
      exact hest.connection
    · rw [hafter, hw, hest.connects]
      rfl

/-- A frame that is not of a connect. -/
theorem resume_onward {w w' : World} {frame : Frame} {results : List (Except Errno Nat)}
    {sees : Bool} {es : List Event} (hnot : frame.isConnectDone = false)
    (hs : w.resume crc results sees frame = some (w', es)) : Onward 0 w w' es := by
  cases frame with
  | user => exact absurd hs (by simp [World.resume])
  | sendFlush =>
    obtain ⟨rfl, rfl⟩ := Prod.mk.inj (Option.some.inj hs)
    exact sendFlush_onward w
  | flush => exact flush_onward hs
  | writeCompleted =>
    obtain ⟨rfl, rfl⟩ := Prod.mk.inj (Option.some.inj hs)
    exact writeCompleted_onward w true
  | restoreDefer previous =>
    obtain ⟨rfl, rfl⟩ := Prod.mk.inj (Option.some.inj hs)
    exact onward_of_same rfl rfl ⟨[], rfl, by simp⟩ rfl rfl
  | drain r b ms =>
    obtain ⟨rfl, rfl⟩ := Prod.mk.inj (Option.some.inj hs)
    exact drain_onward w r b ms sees
  | drainCheck =>
    obtain ⟨rfl, rfl⟩ := Prod.mk.inj (Option.some.inj hs)
    unfold World.drainCheck
    split
    · exact .refl w
    · exact onward_push w (by simp [Frame.isConnectDone]) rfl rfl
  | drainArm =>
    obtain ⟨rfl, rfl⟩ := Prod.mk.inj (Option.some.inj hs)
    unfold World.drainArm
    split
    · exact .refl w
    · exact onward_of_same rfl rfl ⟨[.drainQueue], rfl, by simp [Frame.isConnectDone]⟩ rfl rfl
  | drainQueue =>
    obtain ⟨rfl, rfl⟩ := Prod.mk.inj (Option.some.inj hs)
    exact onward_of_same rfl rfl ⟨[], rfl, by simp⟩ rfl rfl
  | connectDone cb => exact absurd hnot (by simp [Frame.isConnectDone])

/-- A step moves the state forward, and every callback of a connect is noted. -/
theorem step_advances {w w' : World} {l : Label} {a : ConnectLedger} {es : List Event}
    (ha : Ledgered w a) (hs : w.step crc l = some (w', es)) :
    Advances w w' a (a.after w l) es := by
  cases acts_of_step hs with
  | read hstack hcb hread => exact (handleRead_onward hread).advances ha
  | unread results hcb => exact (Onward.refl w).advances ha
  | write soError hstack hcb =>
    rw [ConnectLedger.after, hcb]
    exact (handleWrite_onward w).advances ha
  | @finishWrite soError cb hstack hcb =>
    rw [ConnectLedger.after, hcb]
    exact finish_advances ha (Or.inl ⟨cb, hcb⟩) cb soError
  | unwritten soError hcb =>
    rw [ConnectLedger.after, hcb]
    exact (Onward.refl w).advances ha
  | fail soError hstack hcb =>
    rw [ConnectLedger.after, hcb]
    exact (handleClose_onward w .fdError).advances ha
  | @finishError soError cb hstack hcb =>
    rw [ConnectLedger.after, hcb]
    exact finish_advances ha (Or.inr ⟨cb, hcb⟩) cb soError
  | unfailed soError hcb =>
    rw [ConnectLedger.after, hcb]
    exact (Onward.refl w).advances ha
  | @task task tasks hstack htasks =>
    have htask : Onward 0 w { w with tasks } [] := onward_of_same rfl rfl ⟨[], rfl, by simp⟩ rfl rfl
    exact (htask.trans (runTask_onward { w with tasks } task)).advances ha
  | call c huser => exact call_advances ha c
  | @returns stack hstack =>
    have hdone : ({ w with stack } : World).connectsDone = w.connectsDone := by
      simp [World.connectsDone, hstack, Frame.isConnectDone]
    exact ⟨Nat.le_refl _, Nat.le_of_eq (Nat.zero_add _), ha.of_same hdone id, rfl⟩
  | @resume results sees frame stack w' es hstack hresume =>
    cases hframe : frame.isConnectDone with
    | true =>
      obtain ⟨cb, rfl⟩ : ∃ cb, frame = .connectDone cb := by
        cases frame <;> simp [Frame.isConnectDone] at hframe ⊢
      obtain ⟨rfl, rfl⟩ := Prod.mk.inj (Option.some.inj hresume)
      have hcall := connectCallback_onward { w with stack } cb 0
      have hafter : a.after w (.resume results sees) = a.connectDone cb := by
        rw [ConnectLedger.after, hstack]
      rw [hafter]
      refine ⟨hcall.state, hcall.connection, ha.connectDone hstack, ?_⟩
      rw [ha.connectDone_length hstack]
      exact congrArg _ hcall.connects.symm
    | false =>
      have hafter : a.after w (.resume results sees) = a := by
        rw [ConnectLedger.after, hstack]
        cases frame <;> first | rfl | exact absurd hframe (by simp [Frame.isConnectDone])
      have hdone : ({ w with stack } : World).connectsDone = w.connectsDone := by
        simp [World.connectsDone, hstack, hframe]
      have hpopped : Ledgered { w with stack } a := ha.of_same hdone id
      have hon := (resume_onward hframe hresume).advances hpopped
      rw [hafter]
      exact ⟨hon.state, hon.connection, hon.ledger, hon.connects⟩
  | foreign hforeign => exact (foreign_onward hforeign).advances ha

/-! ## Runs -/

/-- How often the close callback may still be called. -/
def World.closable (w : World) : Nat := if w.conn.state = .closed then 0 else 1

theorem step_closable {w w' : World} {l : Label} {es : List Event}
    (hs : w.step crc l = some (w', es)) : es.count (.called .close) + w'.closable ≤ w.closable := by
  have h := step_closes hs
  unfold World.closable
  by_cases hmem : .called .close ∈ es
  · obtain ⟨hopen, hclosed, -⟩ := h.closes hmem
    have honce := h.once
    rw [if_pos hclosed, if_neg hopen]
    exact honce
  · rw [List.count_eq_zero_of_not_mem hmem, Nat.zero_add]
    by_cases hclosed : w.conn.state = .closed
    · rw [if_pos (step_closed hclosed hs).1]
      exact Nat.zero_le _
    · rw [if_neg hclosed]
      split
      · exact Nat.zero_le _
      · exact Nat.le_refl _

/-- No step of a closed connection calls the message callback. -/
theorem step_closed_silent {w w' : World} {l : Label} {es : List Event}
    (h : w.conn.state = .closed) (hs : w.step crc l = some (w', es))
    (messages : List TinyPBProtocol) : .delivered messages ∉ es := by
  have hquiet : ∀ {c c' : TcpConnection} {fs : List Event}, Quiet c c' fs →
      .delivered messages ∉ fs := fun hq hmem => absurd (hq.silent _ hmem) (by simp [Event.isQuiet])
  rcases step_cases hs with ⟨results, -, -, hread⟩ | ⟨-, heffect⟩
  · have hnot : w.conn.isOpen = false := by simp [TcpConnection.isOpen, h]
    rw [World.handleRead, hnot] at hread
    obtain ⟨-, rfl⟩ : w = w' ∧ [] = es := by simpa using hread
    exact List.not_mem_nil
  · cases heffect with
    | quiet hq => exact hquiet hq
    | encoded hok hq => simpa using hquiet hq
    | refused hok hq hclosed => exact hquiet hq
    | flushed hflush hq => simpa using hquiet hq

/-- What holds along a run. -/
structure Lives (x : Lived) (tr : List Event) : Prop where
  ledger : Ledgered x.world x.ledger
  connects : tr.countP Event.isConnect = x.ledger.invoked.length
  connection : tr.count (.called .connection) + x.world.connectable ≤ 1
  close : tr.count (.called .close) + x.world.closable ≤ 1

theorem Lived.step_world {x x' : Lived} {l : Label} {es : List Event}
    (h : x.step crc l = some (x', es)) :
    x.world.step crc l = some (x'.world, es) ∧ x'.ledger = x.ledger.after x.world l := by
  obtain ⟨⟨w, es'⟩, hw, heq⟩ := Option.map_eq_some_iff.mp h
  obtain ⟨rfl, rfl⟩ := Prod.mk.inj heq
  exact ⟨hw, rfl⟩

theorem step_lives {x x' : Lived} {tr : List Event} {l : Label} {es : List Event}
    (h : Lives x tr) (hs : x.step crc l = some (x', es)) : Lives x' (tr ++ es) := by
  obtain ⟨hw, hledger⟩ := Lived.step_world hs
  have hadv := step_advances h.ledger hw
  have hconnection := h.connection
  have hconnection' := hadv.connection
  have hclose := h.close
  have hclose' := step_closable hw
  rw [← hledger] at hadv
  refine ⟨hadv.ledger, ?_, ?_, ?_⟩
  · rw [List.countP_append, h.connects, hadv.connects]
  · rw [List.count_append]
    omega
  · rw [List.count_append]
    omega

theorem lives_new (callbacks : Callbacks) (highWaterMark : Nat) :
    Lives ⟨World.new callbacks highWaterMark, {}⟩ [] :=
  ⟨⟨rfl, List.nodup_nil, fun n hn => absurd hn (by simp),
    fun hc => absurd hc not_connecting_empty⟩, rfl, Nat.le_refl 1, Nat.le_refl 1⟩

/-- From a state of a run on, the state moves forward, and a closed connection calls no message
    callback. -/
theorem run_forward {x x' : Lived} {tr : List Event} {ls : List Label} {es : List Event}
    (h : Lives x tr) (hrun : run (Lived.step crc) x ls = some (x', es)) :
    x.world.conn.state.rank ≤ x'.world.conn.state.rank ∧
      (x.world.conn.state = .closed → ∀ messages, .delivered messages ∉ es) := by
  have hall := run_induction (fun y fs => Ledgered y.world y.ledger ∧
      x.world.conn.state.rank ≤ y.world.conn.state.rank ∧
      (x.world.conn.state = .closed → y.world.conn.state = .closed ∧
        ∀ messages, .delivered messages ∉ fs))
    (fun y fs l y' gs hy hs => ?_) [] ⟨h.ledger, Nat.le_refl _, fun hc => ⟨hc, by simp⟩⟩ hrun
  · exact ⟨hall.2.1, fun hc => (hall.2.2 hc).2⟩
  · obtain ⟨hledger, hrank, hclosed⟩ := hy
    obtain ⟨hw, hafter⟩ := Lived.step_world hs
    have hadv := step_advances hledger hw
    refine ⟨hafter ▸ hadv.ledger, Nat.le_trans hrank hadv.state, fun hc => ?_⟩
    obtain ⟨hyc, hsilent⟩ := hclosed hc
    refine ⟨(step_closed hyc hw).1, fun messages hmem => ?_⟩
    exact (List.mem_append.mp hmem).elim (hsilent messages) (step_closed_silent hyc hw messages)

/-! ## Main result -/

/-- In every run of a connection the state moves forward, the connection callback and the close
    callback are called once at most, and so is the callback of each `connectInProgress`: every
    call of one is in the ledger, which has no call twice. A closed connection calls no message
    callback. -/
theorem connection_lifecycle (crc : Bytes → UInt32) (callbacks : Callbacks) (highWaterMark : Nat)
    (ls : List Label) (x : Lived) (tr : List Event)
    (hrun : run (Lived.step crc) ⟨World.new callbacks highWaterMark, {}⟩ ls = some (x, tr)) :
    tr.count (.called .connection) ≤ 1 ∧ tr.count (.called .close) ≤ 1 ∧
      x.ledger.invoked.Nodup ∧ tr.countP Event.isConnect = x.ledger.invoked.length ∧
      ∀ ms x' es, run (Lived.step crc) x ms = some (x', es) →
        x.world.conn.state.rank ≤ x'.world.conn.state.rank ∧
          (x.world.conn.state = .closed → ∀ messages, .delivered messages ∉ es) := by
  have h : Lives x tr := run_induction Lives (fun _ _ _ _ _ hl hs => step_lives hl hs) []
    (lives_new callbacks highWaterMark) hrun
  have hconnection := h.connection
  have hclose := h.close
  exact ⟨by omega, by omega, (List.nodup_append.mp h.ledger.nodup).1, h.connects,
    fun ms x' es hms => run_forward h hms⟩

/-- A connect that succeeds, a second one on the connection it has made, and the end. -/
def connectedTwice : List Label :=
  [.call (.connectInProgress true), .writable 0, .returns, .resume [] false,
    .call (.connectInProgress true), .returns, .returns, .call .connectDestroyed]

theorem connection_lifecycle_connectedTwice :
    ∃ x tr, run (Lived.step fun _ => 0) ⟨World.new ⟨true, true, true, true, true⟩ 0, {}⟩
        connectedTwice = some (x, tr) ∧
      .called .connection ∈ tr ∧ x.ledger.invoked = [0, 1] ∧
      tr.count (.called .connection) ≤ 1 := by
  have hrun : (run (Lived.step fun _ => 0) ⟨World.new ⟨true, true, true, true, true⟩ 0, {}⟩
      connectedTwice).map (fun r => decide (.called .connection ∈ r.2 ∧
        r.1.ledger.invoked = [0, 1])) = some true := by decide +kernel
  obtain ⟨⟨x, tr⟩, hx, heq⟩ := Option.map_eq_some_iff.mp hrun
  obtain ⟨hmem, hinvoked⟩ := of_decide_eq_true heq
  exact ⟨x, tr, hx, hmem, hinvoked, (connection_lifecycle _ _ _ _ x tr hx).1⟩

end RocketRpc.Net
