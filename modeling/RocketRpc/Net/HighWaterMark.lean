import RocketRpc.Net.ArmedOutput

/-
  The high-water mark.

  `m_sending_above_hwm` is set when an encode reaches the mark, and cleared when the buffer is
  found below it, at the end of `updateWriteInterest`. The write-complete callback runs before
  that end. So while it runs the flag may still be set although the buffer is empty, and an
  encode in the callback that reaches the mark again goes unnoticed (`mark_edge_iff`). Everywhere
  else the flag says that the buffer has not been below the mark since the callback was called
  (`Marks`).
-/

namespace RocketRpc.Net

open RocketRpc.Tcp RocketRpc.Coder Machine

variable {crc : Bytes → UInt32}

def TcpConnection.readAble (c : TcpConnection) : Nat := c.outBuffer.readAble

def Event.isEncoded : Event → Bool
  | .encoded _ => true
  | _ => false

def Event.isHighWaterMark : Event → Bool
  | .called (.highWaterMark _) => true
  | _ => false

def Event.isWriteComplete : Event → Bool
  | .called .writeComplete => true
  | _ => false

/-- An event that has nothing to do with the mark. -/
def Event.isAside (e : Event) : Bool :=
  !e.isEncoded && !e.isHighWaterMark && !e.isWriteComplete

/-! ## What each function does -/

/-- The output buffer, the mark and the flag stay as they are. -/
structure Level (c c' : TcpConnection) (es : List Event) : Prop where
  outBuffer : c'.outBuffer = c.outBuffer
  mark : c'.highWaterMark = c.highWaterMark
  flag : c'.sendingAboveHwm = c.sendingAboveHwm
  callbacks : c'.callbacks = c.callbacks
  closed : c.state = .closed → c'.state = .closed
  silent : ∀ e ∈ es, e.isAside = true

theorem Level.refl (c : TcpConnection) : Level c c [] := ⟨rfl, rfl, rfl, rfl, id, by simp⟩

theorem Level.trans {a b c : TcpConnection} {es fs : List Event} (h : Level a b es)
    (h' : Level b c fs) : Level a c (es ++ fs) where
  outBuffer := h'.outBuffer.trans h.outBuffer
  mark := h'.mark.trans h.mark
  flag := h'.flag.trans h.flag
  callbacks := h'.callbacks.trans h.callbacks
  closed := h'.closed ∘ h.closed
  silent e he := (List.mem_append.mp he).elim (h.silent e) (h'.silent e)

theorem called_level (c : TcpConnection) {callback : Callback}
    (h : (Event.called callback).isAside = true) : Level c c [.called callback] :=
  ⟨rfl, rfl, rfl, rfl, id, fun e he => by rwa [List.mem_singleton.mp he]⟩

theorem close_level (w : World) (why : Why) :
    Level w.conn (w.close why).1.conn (w.close why).2 := by
  refine ⟨rfl, rfl, rfl, rfl, fun _ => rfl, fun e he => ?_⟩
  unfold World.close at he
  split at he
  · exact absurd he (by simp)
  · rw [List.mem_singleton.mp he]
    rfl

theorem handleClose_level (w : World) (why : Why) :
    Level w.conn (w.handleClose why).1.conn (w.handleClose why).2 := by
  unfold World.handleClose
  split
  · exact .refl _
  split
  · exact (close_level w why).trans (called_level _ rfl)
  · exact close_level w why

theorem scheduleOutputFlush_level (w : World) : Level w.conn w.scheduleOutputFlush.conn [] := by
  unfold World.scheduleOutputFlush
  split
  · exact .refl _
  · exact ⟨rfl, rfl, rfl, rfl, id, by simp⟩

theorem sendFlush_level (w : World) : Level w.conn w.sendFlush.conn [] := by
  unfold World.sendFlush
  split
  · exact .refl _
  · exact scheduleOutputFlush_level w

theorem disableWriting_level (w : World) : Level w.conn w.disableWriting.conn [] := by
  unfold World.disableWriting
  split
  · exact ⟨rfl, rfl, rfl, rfl, id, by simp⟩
  · exact .refl _

theorem handleWrite_level (w : World) : Level w.conn w.handleWrite.conn [] := by
  unfold World.handleWrite
  split <;> exact .refl _

theorem decodeInput_level (w : World) :
    Level w.conn (w.decodeInput crc).1.conn (w.decodeInput crc).2 := by
  have hset : ∀ b, Level w.conn (w.setInBuffer b).conn [] := fun _ =>
    ⟨rfl, rfl, rfl, rfl, id, by simp⟩
  unfold World.decodeInput
  dsimp only
  split
  · exact (hset _).trans (handleClose_level (w.setInBuffer _) .decode)
  split
  · split <;> refine ⟨rfl, rfl, rfl, rfl, id, fun e he => ?_⟩ <;>
      rw [List.mem_singleton.mp he] <;> rfl
  · exact hset _

theorem handleRead_level {w w' : World} {results : List (Except Errno Bytes)} {es : List Event}
    (h : w.handleRead crc results = some (w', es)) : Level w.conn w'.conn es := by
  unfold World.handleRead at h
  split at h
  · obtain ⟨rfl, rfl⟩ := Prod.mk.inj (Option.some.inj h)
    exact .refl _
  obtain ⟨⟨ended, b⟩, -, heq⟩ := Option.map_eq_some_iff.mp h
  have hset : Level w.conn (w.setInBuffer b).conn [] := ⟨rfl, rfl, rfl, rfl, id, by simp⟩
  cases ended with
  | failed e =>
    obtain ⟨rfl, rfl⟩ := Prod.mk.inj heq
    exact hset.trans (handleClose_level (w.setInBuffer b) (.readError e))
  | closed =>
    obtain ⟨rfl, rfl⟩ := Prod.mk.inj heq
    exact hset.trans (handleClose_level (w.setInBuffer b) .eof)
  | drained =>
    obtain ⟨rfl, rfl⟩ := Prod.mk.inj heq
    exact hset.trans (decodeInput_level (w.setInBuffer b))

theorem shutdownInLoop_level (w : World) : Level w.conn w.shutdownInLoop.conn [] := by
  unfold World.shutdownInLoop
  split
  · exact .refl _
  · next hopen => exact ⟨rfl, rfl, rfl, rfl, fun h => absurd h hopen, by simp⟩

theorem connectEstablished_level (w : World) :
    Level w.conn w.connectEstablished.1.conn w.connectEstablished.2 := by
  unfold World.connectEstablished
  split
  · exact .refl _
  · next hnot =>
    have hstate : w.conn.state = .notConnected := not_not.mp hnot
    have hopen : w.conn.state = .closed → TcpState.connected = .closed := by simp [hstate]
    dsimp only
    split
    · refine ⟨rfl, rfl, rfl, rfl, hopen, fun e he => ?_⟩
      rw [List.mem_singleton.mp he]
      rfl
    · exact ⟨rfl, rfl, rfl, rfl, hopen, by simp⟩

theorem connectCallback_level (w : World) (cb : Bool) (errorCode : Nat) :
    Level w.conn (w.connectCallback cb errorCode).1.conn (w.connectCallback cb errorCode).2 := by
  unfold World.connectCallback
  split
  · exact called_level _ rfl
  · exact .refl _

theorem connectInProgress_level (w : World) (cb : Bool) :
    Level w.conn (w.connectInProgress cb).1.conn (w.connectInProgress cb).2 := by
  unfold World.connectInProgress
  split
  · exact connectCallback_level w cb EISCONN
  · exact ⟨rfl, rfl, rfl, rfl, id, by simp⟩

theorem finish_level (w : World) (cb : Bool) (soError : Nat) :
    Level w.conn (w.finish cb soError).1.conn (w.finish cb soError).2 := by
  have hclear : Level w.conn w.clearCallbacks.conn [] := ⟨rfl, rfl, rfl, rfl, id, by simp⟩
  unfold World.finish
  split
  · exact hclear.trans ((close_level w.clearCallbacks .connectFailed).trans
      (connectCallback_level _ cb soError))
  · exact hclear.trans (connectEstablished_level (w.clearCallbacks.push [.connectDone cb]))

theorem foreign_level {w w' : World} {t : ThreadId} {sender : Sender} {f : Foreign}
    (h : w.foreign t sender f = some w') : Level w.conn w'.conn [] := by
  cases foreignSteps_of_foreign h with
  | ignored | rejected | entered | shutdown | flagSet | queued => exact .refl _
  | incrInFlight | decrInFlight | pushed | linked | armed =>
    exact ⟨rfl, rfl, rfl, rfl, id, by simp⟩

/-- What a step does to the buffer's size and the flag. -/
inductive MarkEffect (c c' : TcpConnection) (es : List Event) : Prop where
  | level (h : Level c c' es)
  | closed (hclosed : c'.state = .closed) (hsilent : ∀ e ∈ es, e.isAside = true)
  | encoded (hopen : c.state ≠ .closed) (hmark : c'.highWaterMark = c.highWaterMark)
      (hcallbacks : c'.callbacks = c.callbacks) (hgrown : c.readAble ≤ c'.readAble)
      (hencoded : es.any Event.isEncoded = true) (hcompleted : es.any Event.isWriteComplete = false)
      (hflag : c'.sendingAboveHwm = true ↔ c.sendingAboveHwm = true ∨
        (0 < c.highWaterMark ∧ c.highWaterMark ≤ c'.readAble))
      (hcalled : es.any Event.isHighWaterMark = true ↔ c.callbacks.highWaterMark = true ∧
        c.sendingAboveHwm = false ∧ 0 < c.highWaterMark ∧ c.highWaterMark ≤ c'.readAble)
  /-- The buffer is flushed or not, and the flag brought up to date. -/
  | settled (hopen : c.state ≠ .closed) (hmark : c'.highWaterMark = c.highWaterMark)
      (hcallbacks : c'.callbacks = c.callbacks) (hsilent : ∀ e ∈ es, e.isAside = true)
      (hflag : c'.sendingAboveHwm = true ↔ c.sendingAboveHwm = true ∧
        c.highWaterMark ≤ c'.readAble)
  /-- The buffer is empty, and the write-complete callback is called before the flag is brought
      up to date. -/
  | completed (hopen : c.state ≠ .closed) (hmark : c'.highWaterMark = c.highWaterMark)
      (hcallbacks : c'.callbacks = c.callbacks) (hempty : c'.readAble = 0)
      (hflag : c'.sendingAboveHwm = c.sendingAboveHwm)
      (hencoded : es.any Event.isEncoded = false)
      (hcalled : es.any Event.isHighWaterMark = false)
      (hcompleted : es.any Event.isWriteComplete = true)

theorem sendInLoopBatch_mark (w : World) (messages : List AbstractProtocol) :
    MarkEffect w.conn (w.sendInLoopBatch crc messages).1.conn
      (w.sendInLoopBatch crc messages).2 := by
  unfold World.sendInLoopBatch
  split
  · exact .level (.refl _)
  next hrejects =>
  split
  · exact .level (.refl _)
  have hopen : w.conn.state ≠ .closed := fun h => hrejects (by simp [TcpConnection.rejects, h])
  dsimp only
  split
  · exact .closed (handleClose_closed _ _) (handleClose_level (w.setOutBuffer _) .encode).silent
  next hok =>
  have hok : (encode crc messages w.conn.outBuffer).1 = true := by simpa using hok
  have hgrown : w.conn.readAble ≤ (encode crc messages w.conn.outBuffer).2.2.readAble := by
    rw [TcpConnection.readAble, ← TcpBuffer.length_readable, ← TcpBuffer.length_readable,
      (encode_ok hok).2, List.length_append]
    exact Nat.le_add_right _ _
  split
  · next hreached =>
    simp only [Bool.and_eq_true, decide_eq_true_eq, Bool.not_eq_true'] at hreached
    obtain ⟨⟨hmark, hle⟩, hflag⟩ : (0 < w.conn.highWaterMark ∧ w.conn.highWaterMark ≤
        (encode crc messages w.conn.outBuffer).2.2.readAble) ∧ w.conn.sendingAboveHwm = false :=
      hreached
    split
    · next hcb =>
      exact .encoded hopen rfl rfl hgrown rfl rfl ⟨fun _ => Or.inr ⟨hmark, hle⟩, fun _ => rfl⟩
        ⟨fun _ => ⟨hcb, hflag, hmark, hle⟩, fun _ => rfl⟩
    · next hcb =>
      exact .encoded hopen rfl rfl hgrown rfl rfl ⟨fun _ => Or.inr ⟨hmark, hle⟩, fun _ => rfl⟩
        ⟨fun h => absurd h Bool.false_ne_true, fun h => absurd h.1 hcb⟩
  · next hreached =>
    -- the mark is not reached, or the callback was called before
    simp only [Bool.and_eq_true, decide_eq_true_eq, Bool.not_eq_true', not_and, and_imp,
      Bool.not_eq_false] at hreached
    have hset : 0 < w.conn.highWaterMark → w.conn.highWaterMark ≤
        (encode crc messages w.conn.outBuffer).2.2.readAble → w.conn.sendingAboveHwm = true :=
      hreached
    refine .encoded hopen rfl rfl hgrown rfl rfl
      ⟨Or.inl, fun h => h.elim id fun h => hset h.1 h.2⟩
      ⟨fun h => absurd h Bool.false_ne_true, fun ⟨_, hflag, hmark, hle⟩ => ?_⟩
    exact absurd ((hset hmark hle).symm.trans hflag) (by decide)

/-- The mark, the flag and the callbacks are as before. -/
structure SameMark (c c' : TcpConnection) : Prop where
  mark : c'.highWaterMark = c.highWaterMark
  flag : c'.sendingAboveHwm = c.sendingAboveHwm
  callbacks : c'.callbacks = c.callbacks

theorem SameMark.disableWriting {c : TcpConnection} {w : World} (h : SameMark c w.conn) :
    SameMark c w.disableWriting.conn := by
  unfold World.disableWriting
  split
  · exact ⟨h.mark, h.flag, h.callbacks⟩
  · exact h

theorem SameMark.enableWriting {c : TcpConnection} {w : World} (h : SameMark c w.conn) :
    SameMark c w.enableWriting.conn := by
  unfold World.enableWriting
  split
  · exact h
  · exact ⟨h.mark, h.flag, h.callbacks⟩

theorem recoverMark_settled {c : TcpConnection} {w : World} (h : SameMark c w.conn)
    (hopen : c.state ≠ .closed) : MarkEffect c w.recoverMark.conn [] := by
  unfold World.recoverMark
  split
  · next hbelow =>
    simp only [Bool.and_eq_true, decide_eq_true_eq] at hbelow
    refine .settled hopen h.mark h.callbacks (by simp)
      ⟨fun hset => absurd hset Bool.false_ne_true, fun ⟨_, hle⟩ => ?_⟩
    exact absurd (h.mark ▸ hle) (Nat.not_le.mpr hbelow.2)
  · next hbelow =>
    simp only [Bool.and_eq_true, decide_eq_true_eq, not_and, Nat.not_lt] at hbelow
    exact .settled hopen h.mark h.callbacks (by simp)
      ⟨fun hset => ⟨h.flag ▸ hset, h.mark ▸ hbelow hset⟩, fun ⟨hset, _⟩ => h.flag.trans hset⟩

theorem writeCompleted_silent (w : World) (allWritten : Bool) :
    ∀ e ∈ (w.writeCompleted allWritten).2, e.isAside = true := by
  unfold World.writeCompleted
  split
  · exact (handleClose_level w.recoverMark .drained).silent
  · simp

theorem writeCompleted_of_closed {w : World} (hclosed : w.conn.state = .closed)
    (allWritten : Bool) : (w.writeCompleted allWritten).1.conn.state = .closed := by
  unfold World.writeCompleted
  split
  · exact handleClose_closed _ _
  · exact (recoverMark_state w).trans hclosed

/-- The flag is brought up to date, and an idle connection that is shut down closes. -/
theorem writeCompleted_mark {c : TcpConnection} {w : World} (h : SameMark c w.conn)
    (hopen : c.state ≠ .closed) (allWritten : Bool) :
    MarkEffect c (w.writeCompleted allWritten).1.conn (w.writeCompleted allWritten).2 := by
  unfold World.writeCompleted
  split
  · exact .closed (handleClose_closed _ _) (handleClose_level w.recoverMark .drained).silent
  · exact recoverMark_settled h hopen

theorem updateWriteInterest_mark {c : TcpConnection} {w : World} (h : SameMark c w.conn)
    (hopen : c.state ≠ .closed) :
    MarkEffect c (w.updateWriteInterest (w.conn.readAble == 0)).1.conn
      (w.updateWriteInterest (w.conn.readAble == 0)).2 := by
  unfold World.updateWriteInterest
  split
  · next hempty =>
    split
    · have hout : w.disableWriting.conn.readAble = 0 := by
        rw [TcpConnection.readAble, (disableWriting_level w).outBuffer]
        exact beq_iff_eq.mp hempty
      exact .completed hopen h.disableWriting.mark h.disableWriting.callbacks hout
        h.disableWriting.flag rfl rfl rfl
    · exact writeCompleted_mark h.disableWriting hopen true
  · exact writeCompleted_mark h.enableWriting hopen false

/-- Bytes that the kernel accepts in the same step are aside. -/
theorem MarkEffect.accepted {c c' : TcpConnection} {es : List Event} (h : MarkEffect c c' es)
    (bytes : Bytes) : MarkEffect c c' (.accepted bytes :: es) := by
  have hcons : ∀ {fs : List Event}, (∀ e ∈ fs, e.isAside = true) →
      ∀ e ∈ .accepted bytes :: fs, e.isAside = true :=
    fun hfs => List.forall_mem_cons.mpr ⟨rfl, hfs⟩
  cases h with
  | level h => exact .level ⟨h.outBuffer, h.mark, h.flag, h.callbacks, h.closed, hcons h.silent⟩
  | closed hclosed hsilent => exact .closed hclosed (hcons hsilent)
  | encoded hopen hmark hcallbacks hgrown hencoded hcompleted hflag hcalled =>
    exact .encoded hopen hmark hcallbacks hgrown hencoded hcompleted hflag hcalled
  | settled hopen hmark hcallbacks hsilent hflag =>
    exact .settled hopen hmark hcallbacks (hcons hsilent) hflag
  | completed hopen hmark hcallbacks hempty hflag hencoded hcalled hcompleted =>
    exact .completed hopen hmark hcallbacks hempty hflag hencoded hcalled hcompleted

theorem flush_mark {w w' : World} {results : List (Except Errno Nat)} {es : List Event}
    (h : w.flush results = some (w', es)) : MarkEffect w.conn w'.conn es := by
  obtain ⟨⟨ended, out, bytes⟩, hflush, heq⟩ := Option.map_eq_some_iff.mp h
  have hsame : SameMark w.conn (w.setOutBuffer out).conn := ⟨rfl, rfl, rfl⟩
  cases ended with
  | failed e =>
    obtain ⟨rfl, rfl⟩ := Prod.mk.inj heq
    exact MarkEffect.accepted (.closed (handleClose_closed _ _)
      (handleClose_level (w.setOutBuffer out) (.writeError e)).silent) bytes
  | stopped =>
    obtain ⟨rfl, rfl⟩ := Prod.mk.inj heq
    refine MarkEffect.accepted ?_ bytes
    dsimp only
    split
    · next hclosed => exact .closed hclosed (by simp)
    · next hopen => exact updateWriteInterest_mark hsame hopen

theorem drain_mark (w : World) (round batch : Nat) (messages : List AbstractProtocol)
    (sees : Bool) : MarkEffect w.conn (w.drain crc round batch messages sees).1.conn
      (w.drain crc round batch messages sees).2 := by
  unfold World.drain
  split
  · exact .level ⟨rfl, rfl, rfl, rfl, id, by simp⟩
  split
  · exact .level ⟨rfl, rfl, rfl, rfl, id, by simp⟩
  · exact sendInLoopBatch_mark (w.push [.drain (round + 1) 0 []]) messages

theorem call_mark (w : World) (c : Call) :
    MarkEffect w.conn (w.call crc c).1.conn (w.call crc c).2 := by
  cases c with
  | send message =>
    cases message with
    | none => exact .level (.refl _)
    | some message =>
      simp only [World.call]
      split
      · exact .level (.refl _)
      · exact sendInLoopBatch_mark w [message]
  | shutdown => exact .level (shutdownInLoop_level w)
  | connectEstablished => exact .level (connectEstablished_level w)
  | connectInProgress cb => exact .level (connectInProgress_level w cb)
  | connectDestroyed => exact .level (close_level w .destroyed)
  | incrInFlight | decrInFlight | setDirectOutputFlush _ =>
    exact .level ⟨rfl, rfl, rfl, rfl, id, by simp [World.call]⟩

theorem resume_mark {w w' : World} {frame : Frame} {results : List (Except Errno Nat)}
    {sees : Bool} {es : List Event} (h : w.resume crc results sees frame = some (w', es)) :
    MarkEffect w.conn w'.conn es := by
  cases frame with
  | user => exact absurd h (by simp [World.resume])
  | sendFlush =>
    obtain ⟨rfl, rfl⟩ := Prod.mk.inj (Option.some.inj h)
    exact .level (sendFlush_level w)
  | flush => exact flush_mark h
  | writeCompleted =>
    obtain ⟨rfl, rfl⟩ := Prod.mk.inj (Option.some.inj h)
    by_cases hclosed : w.conn.state = .closed
    · exact .closed (writeCompleted_of_closed hclosed true) (writeCompleted_silent w true)
    · exact writeCompleted_mark ⟨rfl, rfl, rfl⟩ hclosed true
  | restoreDefer previous =>
    obtain ⟨rfl, rfl⟩ := Prod.mk.inj (Option.some.inj h)
    exact .level ⟨rfl, rfl, rfl, rfl, id, by simp⟩
  | drain round batch messages =>
    obtain ⟨rfl, rfl⟩ := Prod.mk.inj (Option.some.inj h)
    exact drain_mark w round batch messages sees
  | drainCheck =>
    obtain ⟨rfl, rfl⟩ := Prod.mk.inj (Option.some.inj h)
    unfold World.drainCheck
    split <;> exact .level (.refl _)
  | drainArm =>
    obtain ⟨rfl, rfl⟩ := Prod.mk.inj (Option.some.inj h)
    unfold World.drainArm
    split
    · exact .level (.refl _)
    · exact .level ⟨rfl, rfl, rfl, rfl, id, by simp⟩
  | drainQueue =>
    obtain ⟨rfl, rfl⟩ := Prod.mk.inj (Option.some.inj h)
    exact .level (.refl _)
  | connectDone cb =>
    obtain ⟨rfl, rfl⟩ := Prod.mk.inj (Option.some.inj h)
    exact .level (connectCallback_level w cb 0)

theorem step_mark {w w' : World} {l : Label} {es : List Event}
    (h : w.step crc l = some (w', es)) : MarkEffect w.conn w'.conn es := by
  cases acts_of_step h with
  | read hstack hcb hread => exact .level (handleRead_level hread)
  | unread | unwritten | unfailed | returns => exact .level (.refl _)
  | write soError hstack hcb => exact .level (handleWrite_level w)
  | @finishWrite soError cb hstack hcb => exact .level (finish_level w cb soError)
  | fail soError hstack hcb => exact .level (handleClose_level w .fdError)
  | @finishError soError cb hstack hcb => exact .level (finish_level w cb soError)
  | @task task tasks hstack htasks =>
    cases task with
    | drain => exact .level (.refl _)
    | flush =>
      have hwrite := handleWrite_level
        { w with tasks, conn := { w.conn with flushQueued := false } }
      exact .level ⟨hwrite.outBuffer, hwrite.mark, hwrite.flag, hwrite.callbacks, hwrite.closed,
        by simp⟩
    | shutdown => exact .level (shutdownInLoop_level { w with tasks })
  | call c huser => exact call_mark w c
  | resume hstack hresume =>
    have heffect := resume_mark hresume
    exact heffect
  | foreign hforeign => exact .level (foreign_level hforeign)

/-! ## Runs -/

/-- A connection, and what has happened since the high-water callback was called last, or since
    the start. -/
structure Marked where
  world : World
  /-- The readable size has been below the mark. -/
  below : Bool := true
  /-- The write-complete callback was called. -/
  completed : Bool := false

/-- A step, with what had happened before it. -/
structure MarkedStep where
  encoded : Bool
  /-- The readable size behind the step. -/
  readAble : Nat
  below : Bool
  sendingAboveHwm : Bool
  completed : Bool
  /-- The step calls the high-water callback. -/
  called : Bool
  deriving DecidableEq, Repr

namespace Marked

def step (crc : Bytes → UInt32) (x : Marked) (l : Label) : Option (Marked × List MarkedStep) :=
  (x.world.step crc l).map fun (w, es) =>
    let called := es.any Event.isHighWaterMark
    ({ world := w
       below := (x.below && !called) || w.conn.readAble < w.conn.highWaterMark
       completed := (x.completed || es.any Event.isWriteComplete) && !called },
      [{ encoded := es.any Event.isEncoded
         readAble := w.conn.readAble
         below := x.below
         sendingAboveHwm := x.world.conn.sendingAboveHwm
         completed := x.completed
         called }])

/-- What a step with these events notes. -/
structure Notes (x x' : Marked) (es : List Event) : Prop where
  below : x'.below = ((x.below && !es.any Event.isHighWaterMark) ||
    decide (x'.world.conn.readAble < x'.world.conn.highWaterMark))
  completed : x'.completed = ((x.completed || es.any Event.isWriteComplete) &&
    !es.any Event.isHighWaterMark)

theorem step_world {x x' : Marked} {l : Label} {ss : List MarkedStep}
    (h : x.step crc l = some (x', ss)) :
    ∃ es, x.world.step crc l = some (x'.world, es) ∧ Notes x x' es ∧
      ss = [⟨es.any Event.isEncoded, x'.world.conn.readAble, x.below,
        x.world.conn.sendingAboveHwm, x.completed, es.any Event.isHighWaterMark⟩] := by
  obtain ⟨⟨w, es⟩, hw, heq⟩ := Option.map_eq_some_iff.mp h
  obtain ⟨rfl, rfl⟩ := Prod.mk.inj heq
  exact ⟨es, hw, ⟨rfl, rfl⟩, rfl⟩

/-- Every run of the connection is one of these. -/
theorem run_world (x : Marked) (ls : List Label) :
    (run (step crc) x ls).map (fun r => r.1.world) =
      (run (World.step crc) x.world ls).map fun r => r.1 :=
  run_project Marked.world (fun _ _ => Option.map_map ..) x ls

end Marked

/-- The callback is called at an encode that reaches the mark from below it, and only there. -/
def MarkedStep.Edge (mark : Nat) (s : MarkedStep) : Prop :=
  s.called = true ↔ s.encoded = true ∧ mark ≤ s.readAble ∧ s.below = true

/-- An encode reaches the mark, and the flag is still set from before a call of the
    write-complete callback. -/
def MarkedStep.Missed (mark : Nat) (s : MarkedStep) : Prop :=
  s.encoded = true ∧ mark ≤ s.readAble ∧ s.sendingAboveHwm = true ∧ s.completed = true

instance (mark : Nat) : DecidablePred (MarkedStep.Edge mark) := fun _ =>
  inferInstanceAs (Decidable (_ ↔ _))

instance (mark : Nat) : DecidablePred (MarkedStep.Missed mark) := fun _ =>
  inferInstanceAs (Decidable (_ ∧ _))

/-- A flag that is not set says that the size has been below the mark, and one that is set says
    so only after a call of the write-complete callback. -/
structure Marks (mark : Nat) (x : Marked) : Prop where
  same : x.world.conn.highWaterMark = mark
  callback : x.world.conn.callbacks.highWaterMark = true
  below : x.world.conn.readAble < mark → x.below = true
  cleared : x.world.conn.sendingAboveHwm = false → x.below = true
  set : x.world.conn.sendingAboveHwm = true → x.below = x.completed

/-- Nothing is encoded once the connection is closed. -/
def ClosedOrMarks (mark : Nat) (x : Marked) : Prop :=
  x.world.conn.state = .closed ∨ Marks mark x

theorem aside_any {es : List Event} (h : ∀ e ∈ es, e.isAside = true) :
    es.any Event.isEncoded = false ∧ es.any Event.isHighWaterMark = false ∧
      es.any Event.isWriteComplete = false := by
  have hnone : ∀ e ∈ es, e.isEncoded = false ∧ e.isHighWaterMark = false ∧
      e.isWriteComplete = false := fun e he => by
    simpa [Event.isAside, and_assoc] using h e he
  simp only [List.any_eq_false, Bool.not_eq_true]
  exact ⟨fun e he => (hnone e he).1, fun e he => (hnone e he).2.1, fun e he => (hnone e he).2.2⟩

/-- The callback is not called, and nothing that the flag goes by changes. -/
theorem Marks.keep {mark : Nat} {x x' : Marked} {es : List Event} (h : Marks mark x)
    (hn : x.Notes x' es) (hcalled : es.any Event.isHighWaterMark = false)
    (hwrites : es.any Event.isWriteComplete = false)
    (hsame : x'.world.conn.highWaterMark = mark)
    (hcallbacks : x'.world.conn.callbacks = x.world.conn.callbacks)
    (hflag : x'.world.conn.sendingAboveHwm = x.world.conn.sendingAboveHwm)
    (hlow : x'.world.conn.readAble < mark → x.below = true) : Marks mark x' := by
  have hbelow : x'.below = x.below := by
    rw [hn.below, hcalled, hsame]
    by_cases hlt : x'.world.conn.readAble < mark
    · simp [hlow hlt]
    · simp [hlt]
  have hcompleted : x'.completed = x.completed := by simp [hn.completed, hcalled, hwrites]
  exact ⟨hsame, hcallbacks ▸ h.callback, fun hlt => hbelow.trans (hlow hlt),
    fun hnot => hbelow.trans (h.cleared (hflag ▸ hnot)),
    fun hset => hbelow.trans ((h.set (hflag ▸ hset)).trans hcompleted.symm)⟩

/-- The size has been below the mark, and a flag that is still set is from before a call of the
    write-complete callback. -/
theorem Marks.of_below {mark : Nat} {x x' : Marked} (h : Marks mark x)
    (hsame : x'.world.conn.highWaterMark = mark)
    (hcallbacks : x'.world.conn.callbacks = x.world.conn.callbacks) (hbelow : x'.below = true)
    (hset : x'.world.conn.sendingAboveHwm = true → x'.completed = true) : Marks mark x' :=
  ⟨hsame, hcallbacks ▸ h.callback, fun _ => hbelow, fun _ => hbelow,
    fun hab => hbelow.trans (hset hab).symm⟩

/-- An encode. With the flag set nothing is called; otherwise the size has been below the mark,
    and the callback is called if it no longer is. -/
theorem Marks.encoded {mark : Nat} {x x' : Marked} {es : List Event} (h : Marks mark x)
    (hmark : 0 < mark) (hn : x.Notes x' es)
    (hsame : x'.world.conn.highWaterMark = mark)
    (hcallbacks : x'.world.conn.callbacks = x.world.conn.callbacks)
    (hgrown : x.world.conn.readAble ≤ x'.world.conn.readAble)
    (hwrites : es.any Event.isWriteComplete = false)
    (hflag : x'.world.conn.sendingAboveHwm = true ↔ x.world.conn.sendingAboveHwm = true ∨
      (0 < mark ∧ mark ≤ x'.world.conn.readAble))
    (hcalled : es.any Event.isHighWaterMark = true ↔
      x.world.conn.callbacks.highWaterMark = true ∧ x.world.conn.sendingAboveHwm = false ∧
        0 < mark ∧ mark ≤ x'.world.conn.readAble) :
    Marks mark x' ∧ ((es.any Event.isHighWaterMark = true ↔
        mark ≤ x'.world.conn.readAble ∧ x.below = true) ↔
      ¬ (mark ≤ x'.world.conn.readAble ∧ x.world.conn.sendingAboveHwm = true ∧
        x.completed = true)) := by
  simp only [h.callback, hmark, true_and] at hflag hcalled
  cases hset : x.world.conn.sendingAboveHwm with
  | false =>
    simp only [hset, Bool.false_eq_true, false_or, true_and] at hflag hcalled
    refine ⟨?_, by simp [hcalled, h.cleared hset]⟩
    by_cases hle : mark ≤ x'.world.conn.readAble
    · refine ⟨hsame, hcallbacks ▸ h.callback, fun hlt => absurd hlt (Nat.not_lt.mpr hle),
        fun hnot => absurd ((hflag.mpr hle).symm.trans hnot) (by decide), fun _ => ?_⟩
      simp [hn.below, hn.completed, hcalled.mpr hle, hsame, hle]
    · refine h.of_below hsame hcallbacks ?_ fun hab => absurd (hflag.mp hab) hle
      simp [hn.below, hsame, Nat.not_le.mp hle]
  | true =>
    simp only [hset, Bool.true_eq_false, false_and, iff_false, Bool.not_eq_true] at hcalled
    simp only [hset, true_or, iff_true] at hflag
    refine ⟨h.keep hn hcalled hwrites hsame hcallbacks (hflag.trans hset.symm) fun hlt => ?_, ?_⟩
    · exact h.below (Nat.lt_of_le_of_lt hgrown hlt)
    · simp [hcalled, h.set hset]

/-- The flag is brought up to date with what is left in the buffer. -/
theorem Marks.settled {mark : Nat} {x x' : Marked} {es : List Event} (h : Marks mark x)
    (hn : x.Notes x' es) (hcalled : es.any Event.isHighWaterMark = false)
    (hwrites : es.any Event.isWriteComplete = false)
    (hsame : x'.world.conn.highWaterMark = mark)
    (hcallbacks : x'.world.conn.callbacks = x.world.conn.callbacks)
    (hflag : x'.world.conn.sendingAboveHwm = true ↔ x.world.conn.sendingAboveHwm = true ∧
      mark ≤ x'.world.conn.readAble) : Marks mark x' := by
  by_cases hlt : x'.world.conn.readAble < mark
  · refine h.of_below hsame hcallbacks (by simp [hn.below, hsame, hlt]) fun hset => ?_
    exact absurd (hflag.mp hset).2 (Nat.not_le.mpr hlt)
  · refine h.keep hn hcalled hwrites hsame hcallbacks ?_ fun hlt' => absurd hlt' hlt
    rw [Bool.eq_iff_iff, hflag, and_iff_left (Nat.not_lt.mp hlt)]

theorem step_marks {mark : Nat} {x x' : Marked} {l : Label} {ss : List MarkedStep}
    (hmark : 0 < mark) (h : ClosedOrMarks mark x) (hs : x.step crc l = some (x', ss)) :
    ClosedOrMarks mark x' ∧ ∀ s ∈ ss, s.Edge mark ↔ ¬ s.Missed mark := by
  obtain ⟨es, hw, hn, rfl⟩ := Marked.step_world hs
  simp only [List.mem_singleton, forall_eq, MarkedStep.Edge, MarkedStep.Missed]
  cases step_mark hw with
  | level hlevel =>
    obtain ⟨he, hc, hf⟩ := aside_any hlevel.silent
    rw [he, hc]
    refine ⟨h.imp hlevel.closed fun h => ?_, by simp⟩
    have hsize : x'.world.conn.readAble = x.world.conn.readAble :=
      congrArg TcpBuffer.readAble hlevel.outBuffer
    exact h.keep hn hc hf (hlevel.mark.trans h.same) hlevel.callbacks hlevel.flag
      fun hlt => h.below (hsize ▸ hlt)
  | closed hclosed hsilent =>
    obtain ⟨he, hc, hf⟩ := aside_any hsilent
    rw [he, hc]
    exact ⟨Or.inl hclosed, by simp⟩
  | encoded hopen hsame hcallbacks hgrown hencoded hwrites hflag hcalled =>
    have h := h.resolve_left hopen
    rw [h.same] at hsame hflag hcalled
    obtain ⟨hmarks, hlaw⟩ := h.encoded hmark hn hsame hcallbacks hgrown hwrites hflag hcalled
    simp only [hencoded, true_and]
    exact ⟨Or.inr hmarks, hlaw⟩
  | settled hopen hsame hcallbacks hsilent hflag =>
    obtain ⟨he, hc, hf⟩ := aside_any hsilent
    have h := h.resolve_left hopen
    rw [h.same] at hsame hflag
    rw [he, hc]
    exact ⟨Or.inr (h.settled hn hc hf hsame hcallbacks hflag), by simp⟩
  | completed hopen hsame hcallbacks hempty hflag hencoded hcalled hwrites =>
    have h := h.resolve_left hopen
    rw [h.same] at hsame
    rw [hencoded, hcalled]
    refine ⟨Or.inr (h.of_below hsame hcallbacks ?_ fun _ => ?_), by simp⟩
    · simp [hn.below, hempty, hsame, hmark]
    · simp [hn.completed, hwrites, hcalled]

/-- In every run of a connection whose owner has set the callback and a mark, a step calls the
    callback as it should, unless an encode that reaches the mark finds the flag still set from
    before a call of the write-complete callback. -/
theorem mark_edge_iff (crc : Bytes → UInt32) (callbacks : Callbacks) (highWaterMark : Nat)
    (hmark : 0 < highWaterMark) (hset : callbacks.highWaterMark = true) (ls : List Label)
    (x : Marked) (ss : List MarkedStep)
    (hrun : run (Marked.step crc) { world := World.new callbacks highWaterMark } ls =
      some (x, ss)) :
    ∀ s ∈ ss, s.Edge highWaterMark ↔ ¬ s.Missed highWaterMark := by
  have hnew : ClosedOrMarks highWaterMark { world := World.new callbacks highWaterMark } :=
    Or.inr ⟨rfl, hset, fun _ => rfl, fun _ => rfl, fun h => absurd h Bool.false_ne_true⟩
  refine (run_induction (fun y tr => ClosedOrMarks highWaterMark y ∧
    ∀ s ∈ tr, s.Edge highWaterMark ↔ ¬ s.Missed highWaterMark)
    (fun y tr l y' es hy hs => ?_) [] ⟨hnew, by simp⟩ hrun).2
  obtain ⟨hy', hes⟩ := step_marks hmark hy.1 hs
  exact ⟨hy', fun s hmem => (List.mem_append.mp hmem).elim (hy.2 s) (hes s)⟩

/-- A mark of one byte: a send reaches it, all is written, and the write-complete callback sends
    again. -/
def sendsAgain : List Label :=
  let message := AbstractProtocol.tinyPB { msgId := [49] }
  [.call .connectEstablished, .call (.send (some message)), .returns, .resume [] false, .task,
    .resume [.ok 27] false, .call (.send (some message))]

/-- Up to the first flush. -/
theorem mark_edge_iff_first_send :
    ∃ x ss, run (Marked.step fun _ => 0) { world := World.new ⟨true, false, true, true, true⟩ 1 }
        (sendsAgain.take 6) = some (x, ss) ∧
      ∀ s ∈ ss, s.Edge 1 ↔ ¬ s.Missed 1 := by
  have hrun : (run (Marked.step fun _ => 0) { world := World.new ⟨true, false, true, true, true⟩ 1 }
      (sendsAgain.take 6)).isSome = true := by
    decide +kernel
  obtain ⟨⟨x, ss⟩, hx⟩ := Option.isSome_iff_exists.mp hrun
  exact ⟨x, ss, hx, mark_edge_iff (fun _ => 0) _ 1 (by decide) rfl _ x ss hx⟩

/-- The second send reaches the mark from an empty buffer, and the callback is not called. -/
theorem edge_missed_in_write_complete :
    ∃ callbacks highWaterMark ls x ss,
      0 < highWaterMark ∧ callbacks.highWaterMark = true ∧
      run (Marked.step fun _ => 0) { world := World.new callbacks highWaterMark } ls =
        some (x, ss) ∧
      ∃ s ∈ ss, ¬ s.Edge highWaterMark := by
  have hrun : (run (Marked.step fun _ => 0) { world := World.new ⟨true, false, true, true, true⟩ 1 }
      sendsAgain).map (fun r => decide (∃ s ∈ r.2, ¬ s.Edge 1)) = some true := by
    decide +kernel
  obtain ⟨⟨x, ss⟩, hx, hmissed⟩ := Option.map_eq_some_iff.mp hrun
  exact ⟨_, 1, _, x, ss, by decide, rfl, hx, of_decide_eq_true hmissed⟩

end RocketRpc.Net
