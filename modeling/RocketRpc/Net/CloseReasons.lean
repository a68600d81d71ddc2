import RocketRpc.Net.CloseCallback
import RocketRpc.Net.Delivery

/-
  Where a connection closes, and why.

  `Shuts` says what a function has to do with the end of a connection: the reasons for which it may
  close it, that messages which are turned away stay turned away, and that the write side is shut
  down only with nothing left to write. Each function has one lemma (`…_shuts`). Beside
  `handleRead` a step sends a batch, flushes, or is calm, and no calm step closes a connection
  for `encode` or `decode` (`Does`, `step_does`).
-/

namespace RocketRpc.Net

open RocketRpc.Tcp RocketRpc.Coder

variable {crc : Bytes → UInt32} {P Q : Why → Prop} {c c' : TcpConnection} {es : List Event}

/-- What a function has to do with the end of a connection, which it may close for reasons of `P`
    only. -/
structure Shuts (P : Why → Prop) (c c' : TcpConnection) (es : List Event) : Prop where
  closes : (closings es = [] ∧ (c'.state = .closed → c.state = .closed)) ∨
    ∃ why, P why ∧ closings es = [why] ∧ c.state ≠ .closed ∧ c'.state = .closed
  rejects : c.rejects = true → c'.rejects = true
  writeShut : c'.writeShut = true →
    c.writeShut = true ∨ (c'.rejects = true ∧ c'.outBuffer.readable = [])

theorem Shuts.mono (h : Shuts P c c' es) (hPQ : ∀ why, P why → Q why) : Shuts Q c c' es :=
  ⟨h.closes.imp_right fun ⟨why, hwhy, hrest⟩ => ⟨why, hPQ why hwhy, hrest⟩, h.rejects, h.writeShut⟩

/-- A step for a reason that is not one of `P` does not close the connection. -/
theorem Shuts.why (h : Shuts P c c' es) {why : Why} (hmem : why ∈ closings es) : P why := by
  rcases h.closes with ⟨hnone, -⟩ | ⟨why', hwhy, hone, -⟩
  · exact absurd (hnone ▸ hmem) List.not_mem_nil
  · rw [hone, List.mem_singleton] at hmem
    exact hmem ▸ hwhy

theorem rejects_of_state (hstate : c'.state = c.state) : c'.rejects = c.rejects := by
  rw [TcpConnection.rejects, TcpConnection.rejects, hstate]

theorem rejects_of_closed (h : c.state = .closed) : c.rejects = true := by
  simp [TcpConnection.rejects, h]

theorem shuts_of_same (hstate : c'.state = c.state) (hshut : c'.writeShut = c.writeShut)
    (hes : closings es = []) : Shuts P c c' es :=
  ⟨Or.inl ⟨hes, fun h => hstate ▸ h⟩, fun h => (rejects_of_state hstate).trans h,
    fun h => Or.inl (hshut ▸ h)⟩

theorem Shuts.refl (c : TcpConnection) : Shuts P c c [] := shuts_of_same rfl rfl rfl

/-- What comes in front of a function leaves the state and the write side alone. -/
theorem Shuts.after {c₀ : TcpConnection} (h : Shuts P c c' es) (hstate : c.state = c₀.state)
    (hshut : c.writeShut = c₀.writeShut) (es₀ : List Event) (h₀ : closings es₀ = []) :
    Shuts P c₀ c' (es₀ ++ es) := by
  have hsame : closings (es₀ ++ es) = closings es := by rw [closings_append, h₀, List.nil_append]
  refine ⟨?_, fun hrej => h.rejects ((rejects_of_state hstate).trans hrej), ?_⟩
  · rw [hsame, ← hstate]
    exact h.closes
  · rw [← hshut]
    exact h.writeShut

theorem Shuts.of_state {c₀ : TcpConnection} (h : Shuts P c c' es) (hstate : c.state = c₀.state)
    (hshut : c.writeShut = c₀.writeShut) : Shuts P c₀ c' es := h.after hstate hshut [] rfl

/-- The output buffer is not looked at. -/
theorem Shuts.of_setOutBuffer {w : World} {out : TcpBuffer}
    (h : Shuts P (w.setOutBuffer out).conn c' es) : Shuts P w.conn c' es := h.of_state rfl rfl

theorem Shuts.flushed {w : World} (out : TcpBuffer) (bytes : Bytes)
    (h : Shuts P (w.setOutBuffer out).conn c' es) : Shuts P w.conn c' (.accepted bytes :: es) :=
  h.of_setOutBuffer.after rfl rfl [.accepted bytes] rfl

/-- What comes behind a function only calls back. -/
theorem Shuts.before (h : Shuts P c c' es) {fs : List Event} (hfs : closings fs = []) :
    Shuts P c c' (es ++ fs) := by
  refine ⟨?_, h.rejects, h.writeShut⟩
  rw [closings_append, hfs, List.append_nil]
  exact h.closes

/-! ## What each function does -/

theorem close_shuts (w : World) (why : Why) :
    Shuts (· = why) w.conn (w.close why).1.conn (w.close why).2 := by
  refine ⟨?_, fun _ => rfl, fun h => Or.inl h⟩
  by_cases hclosed : w.conn.state = .closed
  · have hnone : (w.close why).2 = [] := if_pos hclosed
    exact Or.inl ⟨by rw [hnone]; rfl, fun _ => hclosed⟩
  · have hone : (w.close why).2 = [.closed why] := if_neg hclosed
    exact Or.inr ⟨why, rfl, by rw [hone]; rfl, hclosed, rfl⟩

theorem handleClose_shuts (w : World) (why : Why) :
    Shuts (· = why) w.conn (w.handleClose why).1.conn (w.handleClose why).2 := by
  unfold World.handleClose
  split
  · exact .refl _
  split
  · exact (close_shuts w why).before rfl
  · exact close_shuts w why

theorem scheduleOutputFlush_shuts (w : World) :
    Shuts P w.conn w.scheduleOutputFlush.conn [] := by
  unfold World.scheduleOutputFlush
  split
  · exact .refl _
  · exact shuts_of_same rfl rfl rfl

theorem sendFlush_shuts (w : World) : Shuts P w.conn w.sendFlush.conn [] := by
  unfold World.sendFlush
  split
  · exact .refl _
  · exact scheduleOutputFlush_shuts w

theorem recoverMark_writeShut (w : World) : w.recoverMark.conn.writeShut = w.conn.writeShut := by
  unfold World.recoverMark
  split <;> rfl

theorem disableWriting_writeShut (w : World) :
    w.disableWriting.conn.writeShut = w.conn.writeShut := by
  unfold World.disableWriting
  split <;> rfl

theorem enableWriting_writeShut (w : World) :
    w.enableWriting.conn.writeShut = w.conn.writeShut := by
  unfold World.enableWriting
  split <;> rfl

theorem writeCompleted_shuts (w : World) (allWritten : Bool) :
    Shuts (· = .drained) w.conn (w.writeCompleted allWritten).1.conn
      (w.writeCompleted allWritten).2 := by
  unfold World.writeCompleted
  split
  · exact (handleClose_shuts _ .drained).of_state (recoverMark_state w) (recoverMark_writeShut w)
  · exact shuts_of_same (recoverMark_state w) (recoverMark_writeShut w) rfl

theorem updateWriteInterest_shuts (w : World) (allWritten : Bool) :
    Shuts (· = .drained) w.conn (w.updateWriteInterest allWritten).1.conn
      (w.updateWriteInterest allWritten).2 := by
  unfold World.updateWriteInterest
  split
  · split
    · exact shuts_of_same (disableWriting_state w) (disableWriting_writeShut w) rfl
    · exact (writeCompleted_shuts _ true).of_state (disableWriting_state w)
        (disableWriting_writeShut w)
  · exact (writeCompleted_shuts _ false).of_state (enableWriting_state w)
      (enableWriting_writeShut w)

/-- Neither the encoder nor the decoder is to blame. -/
def Why.isCalm (why : Why) : Prop := why ≠ .encode ∧ why ≠ .decode

theorem flush_shuts {w w' : World} {results : List (Except Errno Nat)} {es : List Event}
    (h : w.flush results = some (w', es)) : Shuts Why.isCalm w.conn w'.conn es := by
  obtain ⟨⟨ended, out, bytes⟩, -, heq⟩ := Option.map_eq_some_iff.mp h
  cases ended with
  | failed e =>
    obtain ⟨rfl, rfl⟩ := Prod.mk.inj heq
    have hclose : Shuts Why.isCalm (w.setOutBuffer out).conn
        ((w.setOutBuffer out).handleClose (.writeError e)).1.conn
        ((w.setOutBuffer out).handleClose (.writeError e)).2 :=
      (handleClose_shuts _ _).mono fun _ h => by simp [h, Why.isCalm]
    exact hclose.flushed out bytes
  | stopped =>
    obtain ⟨rfl, rfl⟩ := Prod.mk.inj heq
    refine Shuts.flushed out bytes ?_
    dsimp only
    split
    · exact .refl _
    · exact (updateWriteInterest_shuts (w.setOutBuffer out) _).mono fun _ h => by
        simp [h, Why.isCalm]

/-- A batch closes the connection if it is refused, and for no other reason. -/
theorem sendInLoopBatch_shuts (w : World) (messages : List AbstractProtocol) :
    Shuts (· = .encode) w.conn (w.sendInLoopBatch crc messages).1.conn
      (w.sendInLoopBatch crc messages).2 := by
  unfold World.sendInLoopBatch
  split
  · exact .refl _
  split
  · exact .refl _
  dsimp only
  split
  · exact (handleClose_shuts (w.setOutBuffer _) .encode).of_state rfl rfl
  split
  · split <;> exact shuts_of_same rfl rfl rfl
  · exact shuts_of_same rfl rfl rfl

theorem handleWrite_conn (w : World) : w.handleWrite.conn = w.conn := by
  unfold World.handleWrite
  split <;> rfl

theorem shutdownInLoop_shuts (w : World) : Shuts P w.conn w.shutdownInLoop.conn [] := by
  unfold World.shutdownInLoop
  split
  · exact .refl _
  refine ⟨Or.inl ⟨rfl, by simp⟩, fun _ => rfl, fun h => ?_⟩
  rcases Bool.or_eq_true_iff.mp h with hshut | hempty
  · exact Or.inl hshut
  · exact Or.inr ⟨rfl, (TcpBuffer.readable_eq_nil_iff _).mpr (by simpa using hempty)⟩

theorem connectEstablished_shuts (w : World) :
    Shuts P w.conn w.connectEstablished.1.conn w.connectEstablished.2 := by
  unfold World.connectEstablished
  split
  · exact .refl _
  rename_i hnot
  have hstate : w.conn.state = .notConnected := by simpa using hnot
  have hnew : ∀ (c' : TcpConnection) (fs : List Event), c'.state = .connected →
      c'.writeShut = w.conn.writeShut → closings fs = [] → Shuts P w.conn c' fs :=
    fun c' fs hc hshut hfs => ⟨Or.inl ⟨hfs, fun h => absurd (hc.symm.trans h) (by simp)⟩,
      fun h => absurd h (by simp [TcpConnection.rejects, hstate]), fun h => Or.inl (hshut ▸ h)⟩
  dsimp only
  split
  · exact hnew _ _ rfl rfl rfl
  · exact hnew _ _ rfl rfl rfl

theorem connectCallback_shuts (w : World) (cb : Bool) (errorCode : Nat) :
    Shuts P w.conn (w.connectCallback cb errorCode).1.conn
      (w.connectCallback cb errorCode).2 := by
  unfold World.connectCallback
  split
  · exact shuts_of_same rfl rfl rfl
  · exact .refl _

theorem connectInProgress_shuts (w : World) (cb : Bool) :
    Shuts P w.conn (w.connectInProgress cb).1.conn (w.connectInProgress cb).2 := by
  unfold World.connectInProgress
  split
  · exact connectCallback_shuts w cb EISCONN
  · exact shuts_of_same rfl rfl rfl

theorem finish_shuts (w : World) (cb : Bool) (soError : Nat) :
    Shuts (· = .connectFailed) w.conn (w.finish cb soError).1.conn (w.finish cb soError).2 := by
  have hclose : Shuts (· = .connectFailed) w.conn (w.clearCallbacks.close .connectFailed).1.conn
      (w.clearCallbacks.close .connectFailed).2 :=
    (close_shuts w.clearCallbacks .connectFailed).of_state rfl rfl
  unfold World.finish World.connectCallback World.andThen
  split
  · split
    · exact hclose.before rfl
    · exact hclose.before rfl
  · exact (connectEstablished_shuts _).of_state rfl rfl

theorem foreign_shuts {w w' : World} {t : ThreadId} {sender : Sender} {f : Foreign}
    (h : w.foreign t sender f = some w') : Shuts P w.conn w'.conn [] := by
  cases foreignSteps_of_foreign h <;> exact shuts_of_same rfl rfl rfl

theorem decodeInput_shuts (w : World) :
    Shuts (· ≠ .encode) w.conn (w.decodeInput crc).1.conn (w.decodeInput crc).2 := by
  unfold World.decodeInput
  dsimp only
  split
  · exact ((handleClose_shuts (w.setInBuffer _) .decode).mono fun _ h => by simp [h]).of_state
      rfl rfl
  split
  · split <;> exact shuts_of_same rfl rfl rfl
  · exact shuts_of_same rfl rfl rfl

theorem handleRead_shuts {w w' : World} {results : List (Except Errno Bytes)} {es : List Event}
    (h : w.handleRead crc results = some (w', es)) : Shuts (· ≠ .encode) w.conn w'.conn es := by
  unfold World.handleRead at h
  split at h
  · obtain ⟨rfl, rfl⟩ := Prod.mk.inj (Option.some.inj h)
    exact .refl _
  obtain ⟨⟨ended, b⟩, -, heq⟩ := Option.map_eq_some_iff.mp h
  cases ended with
  | failed e =>
    obtain ⟨rfl, rfl⟩ := Prod.mk.inj heq
    exact ((handleClose_shuts (w.setInBuffer b) (.readError e)).mono fun _ h => by
      simp [h]).of_state rfl rfl
  | closed =>
    obtain ⟨rfl, rfl⟩ := Prod.mk.inj heq
    exact ((handleClose_shuts (w.setInBuffer b) .eof).mono fun _ h => by simp [h]).of_state rfl rfl
  | drained =>
    obtain ⟨rfl, rfl⟩ := Prod.mk.inj heq
    exact (decodeInput_shuts (w.setInBuffer b)).of_state rfl rfl

/-! ## Every step -/

/-- What a step is, apart from `handleRead`. -/
inductive Does (crc : Bytes → UInt32) (w w' : World) (es : List Event) : Prop where
  | sends {v : World} (messages : List AbstractProtocol) (hv : v.conn = w.conn)
      (hsend : v.sendInLoopBatch crc messages = (w', es))
  | flushes {v : World} {results : List (Except Errno Nat)} (hv : v.conn = w.conn)
      (hflush : v.flush results = some (w', es))
  | calm (hquiet : Quiet w.conn w'.conn es) (hshuts : Shuts Why.isCalm w.conn w'.conn es)

theorem does_nothing {w w' : World} (h : w'.conn = w.conn) : Does crc w w' [] :=
  .calm (h ▸ .refl _) (h ▸ .refl _)

theorem call_does (w : World) (c : Call) : Does crc w (w.call crc c).1 (w.call crc c).2 := by
  cases c with
  | send message =>
    cases message with
    | none => exact does_nothing rfl
    | some message =>
      simp only [World.call]
      split
      · exact does_nothing rfl
      · exact .sends [message] rfl rfl
  | shutdown => exact .calm (shutdownInLoop_quiet w) (shutdownInLoop_shuts w)
  | connectEstablished => exact .calm (connectEstablished_quiet w) (connectEstablished_shuts w)
  | connectInProgress cb =>
    exact .calm (connectInProgress_quiet w cb) (connectInProgress_shuts w cb)
  | connectDestroyed =>
    exact .calm (close_quiet w .destroyed (by simp))
      ((close_shuts w .destroyed).mono fun _ h => by simp [h, Why.isCalm])
  | incrInFlight | decrInFlight | setDirectOutputFlush _ =>
    exact .calm (quiet_of_same rfl rfl rfl rfl rfl) (shuts_of_same rfl rfl rfl)

theorem drain_does (w : World) (round batch : Nat) (messages : List AbstractProtocol)
    (sees : Bool) :
    Does crc w (w.drain crc round batch messages sees).1
      (w.drain crc round batch messages sees).2 := by
  unfold World.drain
  split
  · exact .calm (quiet_of_same rfl rfl rfl rfl rfl) (shuts_of_same rfl rfl rfl)
  split
  · exact .calm (quiet_of_same rfl rfl rfl rfl rfl) (shuts_of_same rfl rfl rfl)
  · exact .sends (v := w.push [.drain (round + 1) 0 []]) messages rfl rfl

theorem resume_does {w w' : World} {results : List (Except Errno Nat)} {sees : Bool}
    {frame : Frame} {es : List Event} (h : w.resume crc results sees frame = some (w', es)) :
    Does crc w w' es := by
  cases frame with
  | user => exact absurd h (by simp [World.resume])
  | flush => exact .flushes rfl h
  | sendFlush =>
    obtain ⟨rfl, rfl⟩ := Prod.mk.inj (Option.some.inj h)
    exact .calm (sendFlush_quiet w) (sendFlush_shuts w)
  | writeCompleted =>
    obtain ⟨rfl, rfl⟩ := Prod.mk.inj (Option.some.inj h)
    exact .calm (writeCompleted_quiet w true)
      ((writeCompleted_shuts w true).mono fun _ h => by simp [h, Why.isCalm])
  | restoreDefer previous =>
    obtain ⟨rfl, rfl⟩ := Prod.mk.inj (Option.some.inj h)
    exact .calm (quiet_of_same rfl rfl rfl rfl rfl) (shuts_of_same rfl rfl rfl)
  | drain round batch messages =>
    obtain ⟨rfl, rfl⟩ := Prod.mk.inj (Option.some.inj h)
    exact drain_does w round batch messages sees
  | drainCheck =>
    obtain ⟨rfl, rfl⟩ := Prod.mk.inj (Option.some.inj h)
    unfold World.drainCheck
    split <;> exact does_nothing rfl
  | drainArm =>
    obtain ⟨rfl, rfl⟩ := Prod.mk.inj (Option.some.inj h)
    unfold World.drainArm
    split
    · exact does_nothing rfl
    · exact .calm (quiet_of_same rfl rfl rfl rfl rfl) (shuts_of_same rfl rfl rfl)
  | drainQueue =>
    obtain ⟨rfl, rfl⟩ := Prod.mk.inj (Option.some.inj h)
    exact does_nothing rfl
  | connectDone cb =>
    obtain ⟨rfl, rfl⟩ := Prod.mk.inj (Option.some.inj h)
    exact .calm (connectCallback_quiet w cb 0) (connectCallback_shuts w cb 0)

theorem runTask_does (w : World) (task : Task) : Does crc w (w.runTask task) [] := by
  cases task with
  | drain => exact does_nothing rfl
  | flush =>
    have hreset : (w.runTask .flush).conn = { w.conn with flushQueued := false } :=
      handleWrite_conn _
    exact .calm (hreset ▸ quiet_of_same rfl rfl rfl rfl rfl)
      (hreset ▸ shuts_of_same rfl rfl rfl)
  | shutdown => exact .calm (shutdownInLoop_quiet w) (shutdownInLoop_shuts w)

/-- The stack and the tasks of the loop are not of the connection. -/
theorem Does.of_conn {v w w' : World} {es : List Event} (h : Does crc v w' es)
    (hv : v.conn = w.conn) : Does crc w w' es := by
  cases h with
  | sends messages hu hsend => exact .sends messages (hu.trans hv) hsend
  | flushes hu hflush => exact .flushes (hu.trans hv) hflush
  | calm hquiet hshuts => exact .calm (hv ▸ hquiet) (hv ▸ hshuts)

theorem step_does {w w' : World} {l : Label} {es : List Event}
    (h : w.step crc l = some (w', es)) :
    (∃ results, l = .readable results ∧ w.conn.fdEvent.readCallback = true ∧
        w.handleRead crc results = some (w', es)) ∨
      ((∀ results, l = .readable results → w.conn.fdEvent.readCallback = false) ∧
        Does crc w w' es) := by
  have hfailed : ∀ why, why = Why.connectFailed → why.isCalm := fun _ h => by
    simp [h, Why.isCalm]
  cases acts_of_step h with
  | read hstack hcb hread => exact Or.inl ⟨_, rfl, hcb, hread⟩
  | unread results hcb => exact Or.inr ⟨fun _ _ => hcb, does_nothing rfl⟩
  | write soError hstack hcb => exact Or.inr ⟨by simp, does_nothing (handleWrite_conn w)⟩
  | finishWrite soError hstack hcb =>
    exact Or.inr ⟨by simp, .calm (finish_quiet w _ soError fun hr => hr.writeCallback _ hcb)
      ((finish_shuts w _ soError).mono hfailed)⟩
  | fail soError hstack hcb =>
    exact Or.inr ⟨by simp, .calm (handleClose_quiet w .fdError (by simp))
      ((handleClose_shuts w .fdError).mono fun _ h => by simp [h, Why.isCalm])⟩
  | finishError soError hstack hcb =>
    exact Or.inr ⟨by simp, .calm (finish_quiet w _ soError fun hr => hr.errorCallback _ hcb)
      ((finish_shuts w _ soError).mono hfailed)⟩
  | unwritten | unfailed | returns => exact Or.inr ⟨by simp, does_nothing rfl⟩
  | @task task tasks hstack htasks =>
    exact Or.inr ⟨by simp, (runTask_does { w with tasks } task).of_conn rfl⟩
  | call c huser => exact Or.inr ⟨by simp, call_does w c⟩
  | @resume results sees frame stack _ _ hstack hresume =>
    have hdoes : Does crc { w with stack } w' es := resume_does hresume
    exact Or.inr ⟨by simp, hdoes.of_conn rfl⟩
  | foreign hforeign =>
    exact Or.inr ⟨by simp, .calm (foreign_quiet hforeign) (foreign_shuts hforeign)⟩

theorem Does.shuts {w w' : World} {es : List Event} (h : Does crc w w' es) :
    Shuts (· ≠ .decode) w.conn w'.conn es := by
  cases h with
  | @sends v messages hv hsend =>
    have hbatch := @sendInLoopBatch_shuts crc v messages
    rw [hsend, hv] at hbatch
    exact hbatch.mono fun _ h => by simp [h]
  | flushes hv hflush => exact (hv ▸ flush_shuts hflush).mono fun _ h => h.2
  | calm hquiet hshuts => exact hshuts.mono fun _ h => h.2

theorem step_shuts {w w' : World} {l : Label} {es : List Event}
    (h : w.step crc l = some (w', es)) : Shuts (fun _ => True) w.conn w'.conn es := by
  rcases step_does h with ⟨results, -, -, hread⟩ | ⟨-, hdoes⟩
  · exact (handleRead_shuts hread).mono fun _ _ => trivial
  · exact hdoes.shuts.mono fun _ _ => trivial

/-- There is one reason for the close of a connection that is closed. -/
def ClosedOnce (c : TcpConnection) (tr : List Event) : Prop :=
  (closings tr = [] ∧ c.state ≠ .closed) ∨ ∃ why, closings tr = [why] ∧ c.state = .closed

theorem ClosedOnce.silent {tr : List Event} (h : ClosedOnce c tr) (hopen : c.state ≠ .closed) :
    closings tr = [] := by
  rcases h with ⟨hnone, -⟩ | ⟨-, -, hclosed⟩
  · exact hnone
  · exact absurd hclosed hopen

theorem step_closedOnce {w w' : World} {l : Label} {tr es : List Event}
    (h : ClosedOnce w.conn tr) (hs : w.step crc l = some (w', es)) :
    ClosedOnce w'.conn (tr ++ es) := by
  unfold ClosedOnce
  rw [closings_append]
  rcases (step_shuts hs).closes with ⟨hnone, hstays⟩ | ⟨why, -, hone, hopen, hclosed⟩
  · rw [hnone, List.append_nil]
    exact h.imp (fun h => ⟨h.1, mt hstays h.2⟩)
      fun ⟨why, hwhy, hclosed⟩ => ⟨why, hwhy, (step_closed hclosed hs).1⟩
  · rw [h.silent hopen, hone]
    exact Or.inr ⟨why, rfl, hclosed⟩

end RocketRpc.Net
