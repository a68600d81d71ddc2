import RocketRpc.Coder.Encoding
import RocketRpc.Net.TcpConnection

/-
  What a step of a connection can do to its buffers.

  `Effect` lists it: a step is quiet for both buffers, or encodes a batch, or fails to and
  closes, or flushes. Only `handleRead` touches the input buffer, and `handleRead_inputOnly`
  says what it leaves of the output side. Each function of the connection has one lemma
  (`…_quiet` or `…_effect`). `Acts` says which of them a step calls, `ForeignSteps` what
  another thread does, and `step_cases` puts them together.
-/

namespace RocketRpc.Net

open RocketRpc.Tcp RocketRpc.Coder

variable {crc : Bytes → UInt32}

/-! ## The loops of system calls -/

/-- The bytes that the `readv` calls return. -/
def dataOf : List (Except Errno Bytes) → Bytes
  | [] => []
  | .ok data :: results => data ++ dataOf results
  | .error _ :: results => dataOf results

@[simp] theorem makeReadable_readable (b : TcpBuffer) :
    (makeReadable b).readable = b.readable := by
  unfold makeReadable
  split
  · exact TcpBuffer.resizeBuffer_readable _ _
  · rfl

/-- A read fails on its own only if there are more bytes than the buffer can hold. -/
theorem readFromFd_tooLong {b : TcpBuffer} {data : Bytes} {e : Errno}
    (h : (b.readFromFd (.ok data)).1 = .error e) : e = .EMSGSIZE ∧ data ≠ [] := by
  unfold TcpBuffer.readFromFd at h
  simp only at h
  split at h
  · exact absurd h (by simp)
  rename_i hlong
  split at h
  · exact absurd h (by simp)
  · refine ⟨by simpa using h.symm, ?_⟩
    rintro rfl
    exact hlong (Nat.zero_le _)

theorem readFromFd_error (b : TcpBuffer) (e : Errno) :
    b.readFromFd (.error e) = (.error e, b) := rfl

/-- What a read loop does with the result of one `readv` call. -/
inductive ReadStep (b b' : TcpBuffer) (results : List (Except Errno Bytes)) (ended : ReadEnd) :
    Except Errno Bytes → Prop where
  | again {data} (hdata : data ≠ []) {b₁ : TcpBuffer} (hb₁ : b₁.readable = b.readable ++ data)
      (h : readLoop b₁ results = some (ended, b')) : ReadStep b b' results ended (.ok data)
  | retry (h : readLoop (makeReadable b) results = some (ended, b')) :
      ReadStep b b' results ended (.error .EINTR)
  | short {data} (hdata : data ≠ []) (hb : b'.readable = b.readable ++ data)
      (hlast : results = []) (hended : ended = .drained) : ReadStep b b' results ended (.ok data)
  | wouldBlock {e} (hb : b'.readable = b.readable) (hlast : results = [])
      (hended : ended = .drained) : ReadStep b b' results ended (.error e)
  | eof (hb : b'.readable = b.readable) (hlast : results = []) (hended : ended = .closed) :
      ReadStep b b' results ended (.ok [])
  /-- An error, or more bytes than the buffer can hold. -/
  | failed {result e} (hresult : result ≠ .ok []) (hlast : results = [])
      (hended : ended = .failed e) : ReadStep b b' results ended result

theorem readStep_of_readLoop {b b' : TcpBuffer} {result : Except Errno Bytes}
    {results : List (Except Errno Bytes)} {ended : ReadEnd}
    (h : readLoop b (result :: results) = some (ended, b')) :
    ReadStep b b' results ended result := by
  rw [readLoop] at h
  split at h
  · exact absurd h (by simp)
  cases result with
  | error e =>
    rw [readFromFd_error] at h
    simp only at h
    split at h
    · rename_i he
      subst he
      exact .retry h
    split at h
    · split at h
      · rename_i hlast
        obtain ⟨rfl, rfl⟩ : ReadEnd.drained = ended ∧ makeReadable b = b' := by simpa using h
        exact .wouldBlock (makeReadable_readable b) hlast rfl
      · exact absurd h (by simp)
    · split at h
      · rename_i hlast
        obtain ⟨rfl, -⟩ : ReadEnd.failed e = ended ∧ makeReadable b = b' := by simpa using h
        exact .failed (by simp) hlast rfl
      · exact absurd h (by simp)
  | ok data =>
    cases hpair : (makeReadable b).readFromFd (.ok data) with
    | mk r b₁ =>
      have hr : ((makeReadable b).readFromFd (.ok data)).1 = r := by rw [hpair]
      have hb₁ : ((makeReadable b).readFromFd (.ok data)).2 = b₁ := by rw [hpair]
      rw [hpair] at h
      cases r with
      | error e =>
        obtain ⟨rfl, hdata⟩ := readFromFd_tooLong hr
        simp only [reduceCtorEq, or_self, if_false] at h
        split at h
        · rename_i hlast
          obtain ⟨rfl, -⟩ : ReadEnd.failed .EMSGSIZE = ended ∧ b₁ = b' := by simpa using h
          exact .failed (by simpa using hdata) hlast rfl
        · exact absurd h (by simp)
      | ok n =>
        obtain ⟨rfl, hbuf⟩ := TcpBuffer.readFromFd_ok hr
        rw [hb₁, makeReadable_readable] at hbuf
        simp only at h
        split at h
        · rename_i hzero
          obtain rfl := List.length_eq_zero_iff.mp hzero
          split at h
          · rename_i hlast
            obtain ⟨rfl, rfl⟩ : ReadEnd.closed = ended ∧ b₁ = b' := by simpa using h
            exact .eof (by simpa using hbuf) hlast rfl
          · exact absurd h (by simp)
        rename_i hpos
        have hdata : data ≠ [] := mt List.length_eq_zero_iff.mpr hpos
        split at h
        · split at h
          · rename_i hlast
            obtain ⟨rfl, rfl⟩ : ReadEnd.drained = ended ∧ b₁ = b' := by simpa using h
            exact .short hdata hbuf hlast rfl
          · exact absurd h (by simp)
        · exact .again hdata hbuf h

/-- A read loop that does not fail has appended all that was read. -/
theorem readLoop_readable {b b' : TcpBuffer} {results : List (Except Errno Bytes)}
    {ended : ReadEnd} (h : readLoop b results = some (ended, b'))
    (hended : ∀ e, ended ≠ .failed e) : b'.readable = b.readable ++ dataOf results := by
  induction results generalizing b with
  | nil => simp [readLoop] at h
  | cons result results ih =>
    cases readStep_of_readLoop h with
    | again hdata hb₁ hrest => rw [ih hrest, hb₁, dataOf, List.append_assoc]
    | retry hrest => rw [ih hrest, makeReadable_readable, dataOf]
    | short hdata hb hlast _ => rw [hb, hlast, dataOf, dataOf, List.append_nil]
    | wouldBlock hb hlast _ => rw [hb, hlast, dataOf, dataOf, List.append_nil]
    | eof hb hlast _ => rw [hb, hlast, dataOf, dataOf, List.append_nil, List.append_nil]
    | failed _ _ hfail => exact absurd hfail (hended _)

/-- A read loop ends at the end of file exactly when a `readv` call returns nothing. -/
theorem readLoop_closed_iff {b b' : TcpBuffer} {results : List (Except Errno Bytes)}
    {ended : ReadEnd} (h : readLoop b results = some (ended, b')) :
    ended = .closed ↔ .ok [] ∈ results := by
  induction results generalizing b with
  | nil => simp [readLoop] at h
  | cons result results ih =>
    cases readStep_of_readLoop h with
    | again hdata hb₁ hrest => simp [ih hrest, hdata.symm]
    | retry hrest => simp [ih hrest]
    | short hdata _ hlast hended => simp [hended, hlast, hdata.symm]
    | wouldBlock _ hlast hended => simp [hended, hlast]
    | eof _ _ hended => simp [hended]
    | failed hresult hlast hended => simp [hended, hlast, hresult.symm]

/-- A flush takes from the front of the readable bytes what the kernel accepts. -/
theorem flushLoop_spec {b b' : TcpBuffer} {results : List (Except Errno Nat)} {ended : FlushEnd}
    {bytes : Bytes} (h : flushLoop b results = some (ended, b', bytes)) :
    bytes ++ b'.readable = b.readable := by
  induction results generalizing b bytes with
  | nil =>
    rw [flushLoop] at h
    split at h
    · obtain ⟨rfl, rfl, rfl⟩ : FlushEnd.stopped = ended ∧ b = b' ∧ [] = bytes := by simpa using h
      rfl
    · exact absurd h (by simp)
  | cons result results ih =>
    have stops : ∀ {e : FlushEnd}, (if results = [] then some (e, b, ([] : Bytes)) else none) =
        some (ended, b', bytes) → bytes ++ b'.readable = b.readable := by
      intro e he
      split at he
      · obtain ⟨rfl, rfl, rfl⟩ : e = ended ∧ b = b' ∧ [] = bytes := by simpa using he
        rfl
      · exact absurd he (by simp)
    cases result with
    | error e =>
      rw [flushLoop] at h
      split at h
      · exact absurd h (by simp)
      split at h
      · exact ih h
      split at h
      · exact stops h
      · exact stops h
    | ok n =>
      rw [flushLoop] at h
      split at h
      · exact absurd h (by simp)
      split at h
      · exact absurd h (by simp)
      split at h
      · exact stops h
      obtain ⟨⟨e, out, taken⟩, hrec, heq⟩ := Option.map_eq_some_iff.mp h
      obtain ⟨rfl, rfl, rfl⟩ : e = ended ∧ out = b' ∧ b.readable.take n ++ taken = bytes := by
        simpa using heq
      rw [List.append_assoc, ih hrec, TcpBuffer.writeToFd_ok, List.take_append_drop]

/-! ## Quiet steps -/

/-- The connection reads: it is open, `IN_EVENT` calls `handleRead`, and no connect is under
    way. -/
structure TcpConnection.Reading (c : TcpConnection) : Prop where
  isOpen : c.isOpen = true
  readCallback : c.fdEvent.readCallback = true
  writeCallback : ∀ cb, c.fdEvent.writeCallback ≠ some (.finish cb)
  errorCallback : ∀ cb, c.fdEvent.errorCallback ≠ some (.finish cb)

/-- An event that is neither of the input nor of the output stream. -/
def Event.isQuiet : Event → Bool
  | .closed _ => true
  | .called _ => true
  | _ => false

/-- Both buffers stay as they are, and reading goes on unless the connection is closed for a
    reason that is not the decoder's. -/
structure Quiet (c c' : TcpConnection) (es : List Event) : Prop where
  inBuffer : c'.inBuffer = c.inBuffer
  outBuffer : c'.outBuffer = c.outBuffer
  callbacks : c'.callbacks = c.callbacks
  closed : c.state = .closed → c'.state = .closed
  reading : c.Reading → c'.Reading ∨ ∃ why, why ≠ .decode ∧ .closed why ∈ es
  silent : ∀ e ∈ es, e.isQuiet = true

theorem Quiet.refl (c : TcpConnection) : Quiet c c [] :=
  ⟨rfl, rfl, rfl, id, Or.inl, by simp⟩

/-- Reading depends on the state and the callbacks of the descriptor only. -/
theorem TcpConnection.Reading.of_same {c c' : TcpConnection} (h : c.Reading)
    (hstate : c'.state = c.state) (hfd : c'.fdEvent = c.fdEvent) : c'.Reading := by
  refine ⟨?_, hfd ▸ h.readCallback, hfd ▸ h.writeCallback, hfd ▸ h.errorCallback⟩
  rw [TcpConnection.isOpen, hstate]
  exact h.isOpen

/-- A step that changes only other fields is quiet. -/
theorem quiet_of_same {c c' : TcpConnection} (hstate : c'.state = c.state)
    (hfd : c'.fdEvent = c.fdEvent) (hin : c'.inBuffer = c.inBuffer)
    (hout : c'.outBuffer = c.outBuffer) (hcb : c'.callbacks = c.callbacks) : Quiet c c' [] :=
  ⟨hin, hout, hcb, fun hc => hstate.trans hc, fun hr => Or.inl (hr.of_same hstate hfd), by simp⟩

theorem Quiet.trans {a b c : TcpConnection} {es fs : List Event} (h : Quiet a b es)
    (h' : Quiet b c fs) : Quiet a c (es ++ fs) := by
  refine ⟨h'.inBuffer.trans h.inBuffer, h'.outBuffer.trans h.outBuffer,
    h'.callbacks.trans h.callbacks, h'.closed ∘ h.closed, ?_, ?_⟩
  · intro hr
    rcases h.reading hr with hr | ⟨why, hne, hmem⟩
    · rcases h'.reading hr with hr | ⟨why, hne, hmem⟩
      · exact Or.inl hr
      · exact Or.inr ⟨why, hne, List.mem_append_right _ hmem⟩
    · exact Or.inr ⟨why, hne, List.mem_append_left _ hmem⟩
  · intro e he
    rcases List.mem_append.mp he with he | he
    · exact h.silent e he
    · exact h'.silent e he

/-- A connection that reads is not closed. -/
theorem TcpConnection.Reading.not_closed {c : TcpConnection} (h : c.Reading) :
    c.state ≠ .closed := by
  intro hc
  have hopen := h.isOpen
  simp [TcpConnection.isOpen, hc] at hopen

theorem close_quiet (w : World) (why : Why) (hwhy : why ≠ .decode) :
    Quiet w.conn (w.close why).1.conn (w.close why).2 := by
  refine ⟨rfl, rfl, rfl, fun _ => rfl, fun hr => Or.inr ⟨why, hwhy, ?_⟩, ?_⟩
  · rw [World.close, if_neg hr.not_closed]
    exact List.mem_singleton_self _
  · intro e he
    simp only [World.close] at he
    split at he
    · exact absurd he (by simp)
    · rw [List.mem_singleton.mp he]
      rfl

theorem called_quiet (c : TcpConnection) (callback : Callback) :
    Quiet c c [.called callback] := by
  refine ⟨rfl, rfl, rfl, id, Or.inl, ?_⟩
  intro e he
  rw [List.mem_singleton.mp he]
  rfl

theorem handleClose_quiet (w : World) (why : Why) (hwhy : why ≠ .decode) :
    Quiet w.conn (w.handleClose why).1.conn (w.handleClose why).2 := by
  unfold World.handleClose
  split
  · exact .refl _
  split
  · exact (close_quiet w why hwhy).trans (called_quiet _ .close)
  · exact close_quiet w why hwhy

theorem handleClose_closed (w : World) (why : Why) :
    (w.handleClose why).1.conn.state = .closed := by
  unfold World.handleClose
  split
  · assumption
  split
  · rfl
  · rfl

theorem scheduleOutputFlush_quiet (w : World) : Quiet w.conn w.scheduleOutputFlush.conn [] := by
  unfold World.scheduleOutputFlush
  split
  · exact .refl _
  · exact quiet_of_same rfl rfl rfl rfl rfl

theorem sendFlush_quiet (w : World) : Quiet w.conn w.sendFlush.conn [] := by
  unfold World.sendFlush
  split
  · exact .refl _
  · exact scheduleOutputFlush_quiet w

theorem recoverMark_state (w : World) : w.recoverMark.conn.state = w.conn.state := by
  unfold World.recoverMark
  split <;> rfl

theorem recoverMark_quiet (w : World) : Quiet w.conn w.recoverMark.conn [] := by
  unfold World.recoverMark
  split
  · exact quiet_of_same rfl rfl rfl rfl rfl
  · exact .refl _

theorem writeCompleted_quiet (w : World) (allWritten : Bool) :
    Quiet w.conn (w.writeCompleted allWritten).1.conn (w.writeCompleted allWritten).2 := by
  unfold World.writeCompleted
  split
  · exact (recoverMark_quiet w).trans (handleClose_quiet _ .drained (by simp))
  · exact recoverMark_quiet w

theorem setWriteCallback_quiet (w : World) {callback : Option WriteCallback}
    (hcb : ∀ cb, callback ≠ some (.finish cb)) :
    Quiet w.conn (w.setWriteCallback callback).conn [] :=
  ⟨rfl, rfl, rfl, id, fun hr => Or.inl ⟨hr.1, hr.2, hcb, hr.4⟩, by simp⟩

theorem disableWriting_quiet (w : World) : Quiet w.conn w.disableWriting.conn [] := by
  unfold World.disableWriting
  split
  · exact setWriteCallback_quiet w (by simp)
  · exact .refl _

theorem enableWriting_quiet (w : World) : Quiet w.conn w.enableWriting.conn [] := by
  unfold World.enableWriting
  split
  · exact .refl _
  · exact setWriteCallback_quiet w (by simp)

theorem updateWriteInterest_quiet (w : World) (allWritten : Bool) :
    Quiet w.conn (w.updateWriteInterest allWritten).1.conn
      (w.updateWriteInterest allWritten).2 := by
  unfold World.updateWriteInterest
  split
  · split
    · exact (disableWriting_quiet w).trans (called_quiet _ .writeComplete)
    · exact (disableWriting_quiet w).trans (writeCompleted_quiet _ true)
  · exact (enableWriting_quiet w).trans (writeCompleted_quiet _ false)

theorem handleWrite_quiet (w : World) : Quiet w.conn w.handleWrite.conn [] := by
  unfold World.handleWrite
  split <;> exact .refl _

theorem shutdownInLoop_quiet (w : World) : Quiet w.conn w.shutdownInLoop.conn [] := by
  unfold World.shutdownInLoop
  split
  · exact .refl _
  · rename_i hopen
    exact ⟨rfl, rfl, rfl, fun hc => absurd hc hopen,
      fun hr => Or.inl ⟨rfl, hr.2, hr.3, hr.4⟩, by simp⟩

/-- A connection that was never established does not read. -/
theorem not_reading_of_notConnected {c : TcpConnection} (h : c.state = .notConnected) :
    ¬ c.Reading := by
  intro hr
  have hopen := hr.isOpen
  simp [TcpConnection.isOpen, h] at hopen

theorem connectEstablished_quiet (w : World) :
    Quiet w.conn w.connectEstablished.1.conn w.connectEstablished.2 := by
  unfold World.connectEstablished
  split
  · exact .refl _
  rename_i hnot
  have hstate : w.conn.state = .notConnected := by simpa using hnot
  have hquiet : Quiet w.conn { w.conn with
      state := .connected
      fdEvent := { w.conn.fdEvent with
        readCallback := true
        errorCallback := some .handleError } } [] :=
    ⟨rfl, rfl, rfl, fun hc => absurd (hstate.symm.trans hc) (by simp),
      fun hr => absurd hr (not_reading_of_notConnected hstate), by simp⟩
  dsimp only
  split
  · exact hquiet.trans (called_quiet _ .connection)
  · exact hquiet

theorem connectCallback_quiet (w : World) (cb : Bool) (errorCode : Nat) :
    Quiet w.conn (w.connectCallback cb errorCode).1.conn (w.connectCallback cb errorCode).2 := by
  unfold World.connectCallback
  split
  · exact called_quiet _ _
  · exact .refl _

theorem connectInProgress_quiet (w : World) (cb : Bool) :
    Quiet w.conn (w.connectInProgress cb).1.conn (w.connectInProgress cb).2 := by
  unfold World.connectInProgress
  split
  · exact connectCallback_quiet w cb EISCONN
  · rename_i hnot
    have hstate : w.conn.state = .notConnected := by simpa using hnot
    exact ⟨rfl, rfl, rfl, id,
      fun hr => absurd hr (not_reading_of_notConnected hstate), by simp⟩

/-- `finish` belongs to a connect under way. -/
theorem finish_quiet (w : World) (cb : Bool) (soError : Nat) (h : ¬ w.conn.Reading) :
    Quiet w.conn (w.finish cb soError).1.conn (w.finish cb soError).2 := by
  have hclear : Quiet w.conn w.clearCallbacks.conn [] :=
    ⟨rfl, rfl, rfl, id, fun hr => absurd hr h, by simp⟩
  unfold World.finish
  split
  · exact hclear.trans ((close_quiet w.clearCallbacks .connectFailed (by simp)).trans
      (connectCallback_quiet _ cb soError))
  · exact hclear.trans (connectEstablished_quiet (w.clearCallbacks.push [.connectDone cb]))

/-! ## Every step -/

/-- What a step does to the buffers of a connection, apart from `handleRead`. -/
inductive Effect (crc : Bytes → UInt32) (c c' : TcpConnection) : List Event → Prop where
  | quiet {es} (h : Quiet c c' es) : Effect crc c c' es
  /-- A batch is encoded. -/
  | encoded {messages es} (hok : (encode crc messages c.outBuffer).1 = true)
      (h : Quiet { c with outBuffer := (encode crc messages c.outBuffer).2.2 } c' es) :
      Effect crc c c' (.encoded (encode crc messages c.outBuffer).2.1 :: es)
  /-- A batch cannot be encoded, and the connection closes. -/
  | refused {messages es} (hok : (encode crc messages c.outBuffer).1 = false)
      (h : Quiet { c with outBuffer := (encode crc messages c.outBuffer).2.2 } c' es)
      (hclosed : c'.state = .closed) : Effect crc c c' es
  | flushed {results ended out bytes es}
      (hflush : flushLoop c.outBuffer results = some (ended, out, bytes))
      (h : Quiet { c with outBuffer := out } c' es) : Effect crc c c' (.accepted bytes :: es)

theorem sendInLoopBatch_effect (w : World) (messages : List AbstractProtocol) :
    Effect crc w.conn (w.sendInLoopBatch crc messages).1.conn
      (w.sendInLoopBatch crc messages).2 := by
  unfold World.sendInLoopBatch
  split
  · exact .quiet (.refl _)
  split
  · exact .quiet (.refl _)
  dsimp only
  split
  · rename_i hok
    exact .refused (by simpa using hok) (handleClose_quiet (w.setOutBuffer _) .encode (by simp))
      (handleClose_closed _ _)
  rename_i hok
  have hok : (encode crc messages w.conn.outBuffer).1 = true := by simpa using hok
  have hmark : ∀ (c : TcpConnection), Quiet c { c with sendingAboveHwm := true } [] :=
    fun _ => quiet_of_same rfl rfl rfl rfl rfl
  split
  · split
    · exact .encoded hok ((hmark _).trans (called_quiet _ _))
    · exact .encoded hok (hmark _)
  · exact .encoded hok (.refl _)

theorem flush_effect {w w' : World} {results : List (Except Errno Nat)} {es : List Event}
    (h : w.flush results = some (w', es)) : Effect crc w.conn w'.conn es := by
  obtain ⟨⟨ended, out, bytes⟩, hflush, heq⟩ := Option.map_eq_some_iff.mp h
  cases ended with
  | failed e =>
    obtain ⟨rfl, rfl⟩ := Prod.mk.inj heq
    exact .flushed hflush (handleClose_quiet (w.setOutBuffer out) (.writeError e) (by simp))
  | stopped =>
    obtain ⟨rfl, rfl⟩ := Prod.mk.inj heq
    refine .flushed hflush ?_
    dsimp only
    split
    · exact .refl _
    · exact updateWriteInterest_quiet (w.setOutBuffer out) _

theorem drain_effect (w : World) (round batch : Nat) (messages : List AbstractProtocol)
    (sees : Bool) :
    Effect crc w.conn (w.drain crc round batch messages sees).1.conn
      (w.drain crc round batch messages sees).2 := by
  unfold World.drain
  split
  · exact .quiet (quiet_of_same rfl rfl rfl rfl rfl)
  split
  · exact .quiet (quiet_of_same rfl rfl rfl rfl rfl)
  · exact sendInLoopBatch_effect (w.push [.drain (round + 1) 0 []]) messages

theorem call_effect (w : World) (c : Call) :
    Effect crc w.conn (w.call crc c).1.conn (w.call crc c).2 := by
  cases c with
  | send message =>
    cases message with
    | none => exact .quiet (.refl _)
    | some message =>
      simp only [World.call]
      split
      · exact .quiet (.refl _)
      · exact sendInLoopBatch_effect w [message]
  | shutdown => exact .quiet (shutdownInLoop_quiet w)
  | connectEstablished => exact .quiet (connectEstablished_quiet w)
  | connectInProgress cb => exact .quiet (connectInProgress_quiet w cb)
  | connectDestroyed => exact .quiet (close_quiet w .destroyed (by simp))
  | incrInFlight | decrInFlight | setDirectOutputFlush _ =>
    exact .quiet (quiet_of_same rfl rfl rfl rfl rfl)

theorem resume_effect {w w' : World} {results : List (Except Errno Nat)} {sees : Bool}
    {frame : Frame} {es : List Event} (h : w.resume crc results sees frame = some (w', es)) :
    Effect crc w.conn w'.conn es := by
  cases frame with
  | user => exact absurd h (by simp [World.resume])
  | sendFlush =>
    obtain ⟨rfl, rfl⟩ : w.sendFlush = w' ∧ [] = es := by simpa [World.resume] using h
    exact .quiet (sendFlush_quiet w)
  | flush => exact flush_effect h
  | writeCompleted =>
    obtain ⟨rfl, rfl⟩ := Prod.mk.inj (Option.some.inj h)
    exact .quiet (writeCompleted_quiet w true)
  | restoreDefer previous =>
    obtain ⟨rfl, rfl⟩ := Prod.mk.inj (Option.some.inj h)
    exact .quiet (quiet_of_same rfl rfl rfl rfl rfl)
  | drain round batch messages =>
    obtain ⟨rfl, rfl⟩ := Prod.mk.inj (Option.some.inj h)
    exact drain_effect w round batch messages sees
  | drainCheck =>
    obtain ⟨rfl, rfl⟩ := Prod.mk.inj (Option.some.inj h)
    unfold World.drainCheck
    split <;> exact .quiet (.refl _)
  | drainArm =>
    obtain ⟨rfl, rfl⟩ := Prod.mk.inj (Option.some.inj h)
    unfold World.drainArm
    split
    · exact .quiet (.refl _)
    · exact .quiet (quiet_of_same rfl rfl rfl rfl rfl)
  | drainQueue =>
    obtain ⟨rfl, rfl⟩ := Prod.mk.inj (Option.some.inj h)
    exact .quiet (.refl _)
  | connectDone cb =>
    obtain ⟨rfl, rfl⟩ := Prod.mk.inj (Option.some.inj h)
    exact .quiet (connectCallback_quiet w cb 0)

/-- Everything a step of another thread can do, by where the thread is. -/
inductive ForeignSteps (w : World) (t : ThreadId) : Sender → Foreign → World → Prop where
  | ignored : ForeignSteps w t .idle (.send none) w
  | rejected (message : AbstractProtocol) (hrej : w.conn.rejects = true) :
      ForeignSteps w t .idle (.send (some message)) w
  | entered (message : AbstractProtocol) (hrej : w.conn.rejects = false) :
      ForeignSteps w t .idle (.send (some message)) (w.setSender t (.pushing message))
  | shutdown : ForeignSteps w t .idle .shutdown { w with tasks := w.tasks ++ [.shutdown] }
  | incrInFlight : ForeignSteps w t .idle .incrInFlight
      { w with conn := { w.conn with inFlight := w.conn.inFlight + 1 } }
  | decrInFlight : ForeignSteps w t .idle .decrInFlight
      { w with conn := { w.conn with inFlight := w.conn.inFlight - 1 } }
  | pushed (message : AbstractProtocol) : ForeignSteps w t (.pushing message) .goOn
      (({ w with conn := { w.conn with
        writeQueue := w.conn.writeQueue ++ [(⟨t, message, false⟩ : Node)] } } :
          World).setSender t .linking)
  | linked : ForeignSteps w t .linking .goOn
      (({ w with conn := { w.conn with
        writeQueue := w.conn.writeQueue.map (World.link t) } } : World).setSender t .arming)
  | flagSet (hflag : w.conn.writeQueued = true) :
      ForeignSteps w t .arming .goOn (w.setSender t .idle)
  | armed (hflag : w.conn.writeQueued = false) : ForeignSteps w t .arming .goOn
      (({ w with conn := { w.conn with writeQueued := true } } : World).setSender t .queueing)
  | queued : ForeignSteps w t .queueing .goOn
      (({ w with tasks := w.tasks ++ [.drain] } : World).setSender t .idle)

theorem foreignSteps_of_foreign {w w' : World} {t : ThreadId} {sender : Sender} {f : Foreign}
    (h : w.foreign t sender f = some w') : ForeignSteps w t sender f w' := by
  unfold World.foreign at h
  split at h
  · obtain rfl := Option.some.inj h
    exact .ignored
  · split at h
    · rename_i hrej
      obtain rfl := Option.some.inj h
      exact .rejected _ hrej
    · rename_i hrej
      obtain rfl := Option.some.inj h
      exact .entered _ (by simpa using hrej)
  · obtain rfl := Option.some.inj h
    exact .shutdown
  · obtain rfl := Option.some.inj h
    exact .incrInFlight
  · obtain rfl := Option.some.inj h
    exact .decrInFlight
  · obtain rfl := Option.some.inj h
    exact .pushed _
  · obtain rfl := Option.some.inj h
    exact .linked
  · split at h
    · rename_i hflag
      obtain rfl := Option.some.inj h
      exact .flagSet hflag
    · rename_i hflag
      obtain rfl := Option.some.inj h
      exact .armed (by simpa using hflag)
  · obtain rfl := Option.some.inj h
    exact .queued
  · exact absurd h (by simp)

/-- Other threads change neither the state nor a buffer. -/
theorem foreign_quiet {w w' : World} {t : ThreadId} {sender : Sender} {f : Foreign}
    (h : w.foreign t sender f = some w') : Quiet w.conn w'.conn [] := by
  cases foreignSteps_of_foreign h with
  | ignored | rejected | entered | shutdown | flagSet | queued => exact .refl _
  | incrInFlight | decrInFlight | pushed | linked | armed =>
    exact quiet_of_same rfl rfl rfl rfl rfl

/-- What a step calls, by its label. -/
inductive Acts (crc : Bytes → UInt32) (w : World) : Label → World → List Event → Prop where
  | read {results : List (Except Errno Bytes)} {w' : World} {es : List Event}
      (hstack : w.stack = []) (hcb : w.conn.fdEvent.readCallback = true)
      (hread : w.handleRead crc results = some (w', es)) : Acts crc w (.readable results) w' es
  | unread (results : List (Except Errno Bytes)) (hcb : w.conn.fdEvent.readCallback = false) :
      Acts crc w (.readable results) w []
  | write (soError : Nat) (hstack : w.stack = [])
      (hcb : w.conn.fdEvent.writeCallback = some .handleWrite) :
      Acts crc w (.writable soError) w.handleWrite []
  | finishWrite (soError : Nat) {cb : Bool} (hstack : w.stack = [])
      (hcb : w.conn.fdEvent.writeCallback = some (.finish cb)) :
      Acts crc w (.writable soError) (w.finish cb soError).1 (w.finish cb soError).2
  | unwritten (soError : Nat) (hcb : w.conn.fdEvent.writeCallback = none) :
      Acts crc w (.writable soError) w []
  | fail (soError : Nat) (hstack : w.stack = [])
      (hcb : w.conn.fdEvent.errorCallback = some .handleError) :
      Acts crc w (.error soError) (w.handleClose .fdError).1 (w.handleClose .fdError).2
  | finishError (soError : Nat) {cb : Bool} (hstack : w.stack = [])
      (hcb : w.conn.fdEvent.errorCallback = some (.finish cb)) :
      Acts crc w (.error soError) (w.finish cb soError).1 (w.finish cb soError).2
  | unfailed (soError : Nat) (hcb : w.conn.fdEvent.errorCallback = none) :
      Acts crc w (.error soError) w []
  | task {task : Task} {tasks : List Task} (hstack : w.stack = [])
      (htasks : w.tasks = task :: tasks) : Acts crc w .task ({ w with tasks }.runTask task) []
  | call (c : Call) (huser : w.inUserCode = true) :
      Acts crc w (.call c) (w.call crc c).1 (w.call crc c).2
  | returns {stack : List Frame} (hstack : w.stack = .user :: stack) :
      Acts crc w .returns { w with stack } []
  | resume {results : List (Except Errno Nat)} {sees : Bool} {frame : Frame}
      {stack : List Frame} {w' : World} {es : List Event} (hstack : w.stack = frame :: stack)
      (hresume : { w with stack }.resume crc results sees frame = some (w', es)) :
      Acts crc w (.resume results sees) w' es
  | foreign {t : ThreadId} {f : Foreign} {w' : World}
      (hforeign : w.foreign t (w.senders t) f = some w') : Acts crc w (.foreign t f) w' []

theorem acts_of_step {w w' : World} {l : Label} {es : List Event}
    (h : w.step crc l = some (w', es)) : Acts crc w l w' es := by
  cases l with
  | readable results =>
    obtain ⟨hstack, h⟩ := Option.ite_none_left_eq_some.mp h
    have hidle : w.stack = [] := not_not.mp hstack
    cases hcb : w.conn.fdEvent.readCallback with
    | true => exact .read hidle hcb ((if_pos hcb).symm.trans h)
    | false =>
      obtain ⟨rfl, rfl⟩ := Prod.mk.inj (Option.some.inj ((if_neg (by simp [hcb])).symm.trans h))
      exact .unread results hcb
  | writable soError =>
    obtain ⟨hstack, h⟩ := Option.ite_none_left_eq_some.mp h
    have hidle : w.stack = [] := not_not.mp hstack
    split at h <;> rename_i hcb <;> obtain ⟨rfl, rfl⟩ := Prod.mk.inj (Option.some.inj h)
    · exact .unwritten soError hcb
    · exact .write soError hidle hcb
    · exact .finishWrite soError hidle hcb
  | error soError =>
    obtain ⟨hstack, h⟩ := Option.ite_none_left_eq_some.mp h
    have hidle : w.stack = [] := not_not.mp hstack
    split at h <;> rename_i hcb <;> obtain ⟨rfl, rfl⟩ := Prod.mk.inj (Option.some.inj h)
    · exact .unfailed soError hcb
    · exact .fail soError hidle hcb
    · exact .finishError soError hidle hcb
  | task =>
    simp only [World.step] at h
    split at h
    · rename_i task tasks hstack htasks
      obtain ⟨rfl, rfl⟩ := Prod.mk.inj (Option.some.inj h)
      exact .task hstack htasks
    · exact absurd h (by simp)
  | call c =>
    obtain ⟨huser, h⟩ := Option.ite_none_right_eq_some.mp h
    obtain ⟨rfl, rfl⟩ := Prod.mk.inj (Option.some.inj h)
    exact .call c huser
  | returns =>
    simp only [World.step] at h
    split at h
    · rename_i stack hstack
      obtain ⟨rfl, rfl⟩ := Prod.mk.inj (Option.some.inj h)
      exact .returns hstack
    · exact absurd h (by simp)
  | resume results sees =>
    simp only [World.step] at h
    split at h
    · rename_i frame stack hstack
      exact .resume hstack h
    · exact absurd h (by simp)
  | foreign t f =>
    obtain ⟨w₁, hw₁, heq⟩ := Option.map_eq_some_iff.mp h
    obtain ⟨rfl, rfl⟩ := Prod.mk.inj heq
    exact .foreign hw₁

/-- A step is a `handleRead`, or has an `Effect`. -/
theorem step_cases {w w' : World} {l : Label} {es : List Event}
    (h : w.step crc l = some (w', es)) :
    (∃ results, l = .readable results ∧ w.conn.fdEvent.readCallback = true ∧
        w.handleRead crc results = some (w', es)) ∨
      ((∀ results, l = .readable results → w.conn.fdEvent.readCallback = false) ∧
        Effect crc w.conn w'.conn es) := by
  cases acts_of_step h with
  | read hstack hcb hread => exact Or.inl ⟨_, rfl, hcb, hread⟩
  | unread results hcb => exact Or.inr ⟨fun _ _ => hcb, .quiet (.refl _)⟩
  | write soError hstack hcb => exact Or.inr ⟨by simp, .quiet (handleWrite_quiet w)⟩
  | finishWrite soError hstack hcb =>
    exact Or.inr ⟨by simp, .quiet (finish_quiet w _ soError fun hr => hr.writeCallback _ hcb)⟩
  | fail soError hstack hcb =>
    exact Or.inr ⟨by simp, .quiet (handleClose_quiet w .fdError (by simp))⟩
  | finishError soError hstack hcb =>
    exact Or.inr ⟨by simp, .quiet (finish_quiet w _ soError fun hr => hr.errorCallback _ hcb)⟩
  | unwritten | unfailed | returns => exact Or.inr ⟨by simp, .quiet (.refl _)⟩
  | @task task tasks hstack htasks =>
    refine Or.inr ⟨by simp, ?_⟩
    cases task with
    | drain => exact .quiet (.refl _)
    | flush =>
      have hreset : Quiet w.conn { w.conn with flushQueued := false } [] :=
        quiet_of_same rfl rfl rfl rfl rfl
      exact .quiet (hreset.trans (handleWrite_quiet
        { w with tasks := tasks, conn := { w.conn with flushQueued := false } }))
    | shutdown => exact .quiet (shutdownInLoop_quiet { w with tasks := tasks })
  | call c huser => exact Or.inr ⟨by simp, call_effect w c⟩
  | resume hstack hresume =>
    have heffect := resume_effect hresume
    exact Or.inr ⟨by simp, heffect⟩
  | foreign hforeign => exact Or.inr ⟨by simp, .quiet (foreign_quiet hforeign)⟩

/-! ## Reading -/

theorem handleClose_buffers (w : World) (why : Why) :
    (w.handleClose why).1.conn.inBuffer = w.conn.inBuffer ∧
      (w.handleClose why).1.conn.outBuffer = w.conn.outBuffer := by
  unfold World.handleClose
  split
  · exact ⟨rfl, rfl⟩
  split <;> exact ⟨rfl, rfl⟩

theorem mem_handleClose {w : World} {why : Why} {e : Event} (h : e ∈ (w.handleClose why).2) :
    e = .closed why ∨ e = .called .close := by
  unfold World.handleClose at h
  split at h
  · exact absurd h (by simp)
  rename_i hopen
  have hclose : (w.close why).2 = [.closed why] := if_neg hopen
  split at h
  · rw [World.andThen, hclose] at h
    simpa using h
  · rw [hclose] at h
    exact Or.inl (List.mem_singleton.mp h)

/-- What `handleRead` leaves of the output side: all of it, unless it closes. -/
structure InputOnly (c c' : TcpConnection) (es : List Event) : Prop where
  outBuffer : c'.outBuffer = c.outBuffer
  closed : c.state = .closed → c'.state = .closed
  silent : ∀ e ∈ es, e.isQuiet = true ∨ ∃ messages, e = .delivered messages

theorem InputOnly.of_setInBuffer {w : World} {b : TcpBuffer} {c' : TcpConnection}
    {es : List Event} (h : InputOnly (w.setInBuffer b).conn c' es) : InputOnly w.conn c' es :=
  ⟨h.outBuffer, h.closed, h.silent⟩

theorem handleClose_inputOnly (w : World) (why : Why) :
    InputOnly w.conn (w.handleClose why).1.conn (w.handleClose why).2 := by
  refine ⟨(handleClose_buffers w why).2, fun _ => handleClose_closed w why, ?_⟩
  intro e he
  rcases mem_handleClose he with rfl | rfl
  · exact Or.inl rfl
  · exact Or.inl rfl

theorem decodeInput_inputOnly (w : World) :
    InputOnly w.conn (w.decodeInput crc).1.conn (w.decodeInput crc).2 := by
  unfold World.decodeInput
  dsimp only
  split
  · exact (handleClose_inputOnly (w.setInBuffer _) .decode).of_setInBuffer
  split
  · split <;> exact ⟨rfl, id, fun e he => Or.inr ⟨_, List.mem_singleton.mp he⟩⟩
  · exact ⟨rfl, id, by simp⟩

theorem handleRead_inputOnly {w w' : World} {results : List (Except Errno Bytes)}
    {es : List Event} (h : w.handleRead crc results = some (w', es)) :
    InputOnly w.conn w'.conn es := by
  unfold World.handleRead at h
  split at h
  · obtain ⟨rfl, rfl⟩ := Prod.mk.inj (Option.some.inj h)
    exact ⟨rfl, id, by simp⟩
  obtain ⟨⟨ended, b⟩, -, heq⟩ := Option.map_eq_some_iff.mp h
  cases ended with
  | failed e =>
    obtain ⟨rfl, rfl⟩ := Prod.mk.inj heq
    exact (handleClose_inputOnly (w.setInBuffer b) (.readError e)).of_setInBuffer
  | closed =>
    obtain ⟨rfl, rfl⟩ := Prod.mk.inj heq
    exact (handleClose_inputOnly (w.setInBuffer b) .eof).of_setInBuffer
  | drained =>
    obtain ⟨rfl, rfl⟩ := Prod.mk.inj heq
    exact (decodeInput_inputOnly (w.setInBuffer b)).of_setInBuffer

end RocketRpc.Net
