import RocketRpc.Lib.Machine
import RocketRpc.Net.ConnectionSteps

/-
  Encoded output has somebody who will flush it.

  While a connection is established and bytes wait in its output buffer, a flush is queued,
  `OUT_EVENT` calls `handleWrite`, or the loop is still in a function that comes to a flush
  (`Armed`). Every step keeps this but one: a connection that becomes established takes over
  what was sent before, and `finish` of `connectInProgress` clears the callbacks without
  looking at the output buffer. `ArmedAtConnect` is the condition on that step;
  `finish_armed_iff` says that it is what the step needs.
-/

namespace RocketRpc.Net

open RocketRpc.Tcp RocketRpc.Coder Machine

variable {crc : Bytes → UInt32}

/-- The constructor of a connection, and the setters of its owner. -/
def World.new (callbacks : Callbacks) (highWaterMark : Nat) : World :=
  { conn := { callbacks, highWaterMark } }

/-- What comes back to a flush. -/
def Frame.flushes : Frame → Bool
  | .sendFlush => true
  | .flush => true
  | _ => false

/-- A flush is queued or awaited, or the loop is on its way to one. -/
def Armed (w : World) : Prop :=
  w.conn.flushQueued = true ∨ w.conn.fdEvent.writeCallback = some .handleWrite ∨
    ∃ frame ∈ w.stack, frame.flushes = true

instance (w : World) : Decidable (Armed w) := inferInstanceAs (Decidable (_ ∨ _ ∨ _))

/-- No connect is under way on the descriptor. -/
def NoConnect (fd : FdEvent) : Prop :=
  ∀ cb, fd.writeCallback ≠ some (.finish cb) ∧ fd.errorCallback ≠ some (.finish cb)

/-- A queued flush has its task, and the descriptor of an established connection is its own. -/
structure Base (w : World) : Prop where
  queued : w.conn.flushQueued = true → .flush ∈ w.tasks
  ours : w.conn.state = .connected → NoConnect w.conn.fdEvent

structure Flushed (w : World) : Prop extends Base w where
  armed : w.conn.state = .connected → w.conn.outBuffer.readable ≠ [] → Armed w

/-! ## What the functions of a connection keep -/

theorem Base.of_same {w w' : World} (h : Base w) (hstate : w'.conn.state = w.conn.state)
    (hfd : w'.conn.fdEvent = w.conn.fdEvent) (hqueued : w'.conn.flushQueued = w.conn.flushQueued)
    (htasks : .flush ∈ w.tasks → .flush ∈ w'.tasks) : Base w' where
  queued hq := htasks (h.queued (hqueued ▸ hq))
  ours hc := hfd ▸ h.ours (hstate ▸ hc)

theorem Flushed.of_same {w w' : World} (h : Flushed w) (hstate : w'.conn.state = w.conn.state)
    (hfd : w'.conn.fdEvent = w.conn.fdEvent)
    (hqueued : w'.conn.flushQueued = w.conn.flushQueued)
    (hbuffer : w'.conn.outBuffer = w.conn.outBuffer)
    (htasks : .flush ∈ w.tasks → .flush ∈ w'.tasks)
    (hstack : ∀ frame ∈ w.stack, frame.flushes = true → frame ∈ w'.stack) : Flushed w' where
  toBase := h.toBase.of_same hstate hfd hqueued htasks
  armed hc hne := by
    rcases h.armed (hstate ▸ hc) (hbuffer ▸ hne) with hq | hw | ⟨frame, hmem, hf⟩
    · exact Or.inl (hqueued.trans hq)
    · exact Or.inr (Or.inl ((congrArg FdEvent.writeCallback hfd).trans hw))
    · exact Or.inr (Or.inr ⟨frame, hstack frame hmem hf, hf⟩)

theorem Flushed.push {w : World} (h : Flushed w) (frames : List Frame) :
    Flushed (w.push frames) :=
  h.of_same rfl rfl rfl rfl id fun _ hmem _ => List.mem_append_right _ hmem

/-- Outside `Connected` there is nothing to flush. -/
theorem flushed_of_state {w : World} (hq : w.conn.flushQueued = true → .flush ∈ w.tasks)
    (hstate : w.conn.state ≠ .connected) : Flushed w :=
  ⟨⟨hq, fun hc => absurd hc hstate⟩, fun hc => absurd hc hstate⟩

theorem handleClose_flushed {w : World} (h : Base w) (why : Why) :
    Flushed (w.handleClose why).1 := by
  refine flushed_of_state ?_ (by simp [handleClose_closed])
  unfold World.handleClose
  split
  · exact h.queued
  · split <;> exact h.queued

theorem scheduleOutputFlush_flushed {w : World} (h : Base w) :
    Flushed w.scheduleOutputFlush := by
  unfold World.scheduleOutputFlush
  split
  · rename_i hset
    refine ⟨h, fun hc _ => ?_⟩
    rcases Bool.or_eq_true_iff.mp hset with hq | hw
    · exact Or.inl hq
    · obtain ⟨callback, hcb⟩ := Option.isSome_iff_exists.mp hw
      cases callback with
      | handleWrite => exact Or.inr (Or.inl hcb)
      | finish cb => exact absurd hcb (h.ours hc cb).1
  · exact ⟨⟨fun _ => List.mem_append_right _ (List.mem_singleton_self _), h.ours⟩,
      fun _ _ => Or.inl rfl⟩

theorem Base.push {w : World} (h : Base w) (frames : List Frame) : Base (w.push frames) :=
  h.of_same rfl rfl rfl id

/-- A frame that flushes is on top. -/
theorem flushed_of_frame {w : World} (h : Base w) {frame : Frame} (hmem : frame ∈ w.stack)
    (hf : frame.flushes = true) : Flushed w :=
  ⟨h, fun _ _ => Or.inr (Or.inr ⟨frame, hmem, hf⟩)⟩

theorem sendFlush_flushed {w : World} (h : Base w) : Flushed w.sendFlush := by
  unfold World.sendFlush
  split
  · exact flushed_of_frame (h.push [.flush]) List.mem_cons_self rfl
  · exact scheduleOutputFlush_flushed h

theorem sendInLoopBatch_flushed {w : World} (h : Flushed w) (messages : List AbstractProtocol) :
    Flushed (w.sendInLoopBatch crc messages).1 := by
  unfold World.sendInLoopBatch
  split
  · exact h
  split
  · exact h
  dsimp only
  have hbase : Base (w.setOutBuffer (encode crc messages w.conn.outBuffer).2.2) :=
    h.toBase.of_same rfl rfl rfl id
  split
  · exact handleClose_flushed hbase .encode
  split
  · have hmark : Base { w.setOutBuffer (encode crc messages w.conn.outBuffer).2.2 with
        conn := { (w.setOutBuffer (encode crc messages w.conn.outBuffer).2.2).conn with
          sendingAboveHwm := true } } := hbase.of_same rfl rfl rfl id
    split
    · exact flushed_of_frame (hmark.push [.user, .sendFlush])
        (List.mem_cons_of_mem _ List.mem_cons_self) rfl
    · exact flushed_of_frame (hmark.push [.sendFlush]) List.mem_cons_self rfl
  · exact flushed_of_frame (hbase.push [.sendFlush]) List.mem_cons_self rfl

theorem recoverMark_flushed {w : World} (h : Flushed w) : Flushed w.recoverMark := by
  unfold World.recoverMark
  split
  · exact h.of_same rfl rfl rfl rfl id fun _ hmem _ => hmem
  · exact h

theorem writeCompleted_flushed {w : World} (h : Flushed w) (allWritten : Bool) :
    Flushed (w.writeCompleted allWritten).1 := by
  unfold World.writeCompleted
  split
  · exact handleClose_flushed (recoverMark_flushed h).toBase .drained
  · exact recoverMark_flushed h

theorem enableWriting_flushed {w : World} (h : Base w) : Flushed w.enableWriting := by
  unfold World.enableWriting
  split
  · rename_i hset
    refine ⟨h, fun hc _ => ?_⟩
    obtain ⟨callback, hcb⟩ := Option.isSome_iff_exists.mp hset
    cases callback with
    | handleWrite => exact Or.inr (Or.inl hcb)
    | finish cb => exact absurd hcb (h.ours hc cb).1
  · exact ⟨⟨h.queued, fun hc cb => ⟨by simp [World.setWriteCallback], (h.ours hc cb).2⟩⟩,
      fun _ _ => Or.inr (Or.inl rfl)⟩

/-- With nothing in the output buffer `OUT_EVENT` may be given up. -/
theorem disableWriting_flushed {w : World} (h : Base w) (hempty : w.conn.outBuffer.readable = []) :
    Flushed w.disableWriting := by
  unfold World.disableWriting
  split
  · exact ⟨⟨h.queued, fun hc cb => ⟨by simp [World.setWriteCallback], (h.ours hc cb).2⟩⟩,
      fun _ hne => absurd hempty hne⟩
  · exact ⟨h, fun _ hne => absurd hempty hne⟩

theorem updateWriteInterest_flushed {w : World} (h : Base w) :
    Flushed (w.updateWriteInterest (w.conn.outBuffer.readAble == 0)).1 := by
  unfold World.updateWriteInterest
  split
  · rename_i hempty
    have hempty := (TcpBuffer.readable_eq_nil_iff _).mpr (by simpa using hempty)
    split
    · exact (disableWriting_flushed h hempty).push [.user, .writeCompleted]
    · exact writeCompleted_flushed (disableWriting_flushed h hempty) true
  · exact writeCompleted_flushed (enableWriting_flushed h) false

theorem flush_flushed {w w' : World} {results : List (Except Errno Nat)} {es : List Event}
    (h : Base w) (hflush : w.flush results = some (w', es)) : Flushed w' := by
  obtain ⟨⟨ended, out, bytes⟩, -, heq⟩ := Option.map_eq_some_iff.mp hflush
  have hbase : Base (w.setOutBuffer out) := h.of_same rfl rfl rfl id
  cases ended with
  | failed e =>
    obtain ⟨rfl, -⟩ := Prod.mk.inj heq
    exact handleClose_flushed hbase (.writeError e)
  | stopped =>
    obtain ⟨rfl, -⟩ := Prod.mk.inj heq
    dsimp only
    split
    · rename_i hclosed
      exact flushed_of_state hbase.queued (by simp [hclosed])
    · exact updateWriteInterest_flushed hbase

theorem handleWrite_flushed {w : World} (h : Base w) : Flushed w.handleWrite := by
  unfold World.handleWrite
  split
  · exact flushed_of_frame (h.push [.flush]) List.mem_cons_self rfl
  · rename_i hopen
    exact flushed_of_state h.queued fun hc => hopen (by simp [TcpConnection.isOpen, hc])

theorem decodeInput_flushed {w : World} (h : Flushed w) : Flushed (w.decodeInput crc).1 := by
  unfold World.decodeInput
  dsimp only
  have hin : Flushed (w.setInBuffer (decode crc w.conn.inBuffer).2) :=
    h.of_same rfl rfl rfl rfl id fun _ hmem _ => hmem
  split
  · exact handleClose_flushed hin.toBase .decode
  split
  · have hdefer : Flushed { w.setInBuffer (decode crc w.conn.inBuffer).2 with
        conn := { (w.setInBuffer (decode crc w.conn.inBuffer).2).conn with
          deferOutputFlush := 1 < (decode crc w.conn.inBuffer).1.messages.length } } :=
      hin.of_same rfl rfl rfl rfl id fun _ hmem _ => hmem
    split
    · exact hdefer.push _
    · exact hin.push [.user]
  · exact hin

theorem handleRead_flushed {w w' : World} {results : List (Except Errno Bytes)}
    {es : List Event} (h : Flushed w) (hread : w.handleRead crc results = some (w', es)) :
    Flushed w' := by
  unfold World.handleRead at hread
  split at hread
  · obtain ⟨rfl, -⟩ := Prod.mk.inj (Option.some.inj hread)
    exact h
  obtain ⟨⟨ended, b⟩, -, heq⟩ := Option.map_eq_some_iff.mp hread
  have hin : Flushed (w.setInBuffer b) := h.of_same rfl rfl rfl rfl id fun _ hmem _ => hmem
  cases ended with
  | failed e =>
    obtain ⟨rfl, -⟩ := Prod.mk.inj heq
    exact handleClose_flushed hin.toBase (.readError e)
  | closed =>
    obtain ⟨rfl, -⟩ := Prod.mk.inj heq
    exact handleClose_flushed hin.toBase .eof
  | drained =>
    obtain ⟨rfl, -⟩ := Prod.mk.inj heq
    exact decodeInput_flushed hin

theorem shutdownInLoop_flushed {w : World} (h : Flushed w) : Flushed w.shutdownInLoop := by
  unfold World.shutdownInLoop
  split
  · exact h
  · exact flushed_of_state h.queued (by simp)

theorem connectCallback_flushed {w : World} (h : Flushed w) (cb : Bool) (errorCode : Nat) :
    Flushed (w.connectCallback cb errorCode).1 := by
  unfold World.connectCallback
  split
  · exact h.push [.user]
  · exact h

theorem connectInProgress_flushed {w : World} (h : Flushed w) (cb : Bool) :
    Flushed (w.connectInProgress cb).1 := by
  unfold World.connectInProgress
  split
  · exact connectCallback_flushed h cb EISCONN
  · rename_i hnot
    refine flushed_of_state h.queued ?_
    simp only [ne_eq, Decidable.not_not] at hnot
    simp [hnot]

/-! ## Establishing a connection -/

/-- `connectEstablished` takes over the output that was sent before: it needs a flush for it
    and the descriptor for itself. -/
theorem connectEstablished_flushed {w : World} (h : Flushed w)
    (hours : w.conn.state = .notConnected → ∀ cb, w.conn.fdEvent.writeCallback ≠ some (.finish cb))
    (harmed : w.conn.state = .notConnected → w.conn.outBuffer.readable ≠ [] → Armed w) :
    Flushed w.connectEstablished.1 := by
  unfold World.connectEstablished
  split
  · exact h
  rename_i hnot
  have hstate : w.conn.state = .notConnected := by simpa using hnot
  dsimp only
  have hest : Flushed { w with conn := { w.conn with
      state := .connected
      fdEvent := { w.conn.fdEvent with
        readCallback := true
        errorCallback := some .handleError } } } :=
    ⟨⟨h.queued, fun _ cb => ⟨hours hstate cb, by simp⟩⟩, fun _ hne => harmed hstate hne⟩
  split
  · exact hest.push [.user]
  · exact hest

/-- `finish` of `connectInProgress`, which clears the callbacks first. -/
theorem finish_flushed {w : World} (h : Base w) (hstate : w.conn.state ≠ .connected) (cb : Bool)
    {soError : Nat} (harmed : soError = 0 → w.conn.state = .notConnected →
      w.conn.outBuffer.readable ≠ [] → w.conn.flushQueued = true) :
    Flushed (w.finish cb soError).1 := by
  unfold World.finish
  split
  · have hclosed : Flushed (w.clearCallbacks.close .connectFailed).1 :=
      flushed_of_state h.queued (by simp [World.close])
    exact connectCallback_flushed hclosed cb soError
  · rename_i hzero
    have hclear : Flushed (w.clearCallbacks.push [.connectDone cb]) :=
      flushed_of_state h.queued hstate
    exact connectEstablished_flushed hclear (fun _ cb => by simp [World.clearCallbacks, World.push])
      fun hn hne => Or.inl (harmed (by simpa using hzero) hn hne)

/-- A connect that succeeds leaves its output with a flush exactly when the output buffer is
    empty or a flush is queued already. -/
theorem finish_armed_iff {w : World} (h : Base w) (hstate : w.conn.state = .notConnected)
    (hstack : w.stack = []) (cb : Bool) :
    Flushed (w.finish cb 0).1 ↔ (w.conn.outBuffer.readable ≠ [] → w.conn.flushQueued = true) := by
  constructor
  · intro hf hne
    have hest : (w.finish cb 0).1.conn.state = .connected ∧
        (w.finish cb 0).1.conn.outBuffer = w.conn.outBuffer ∧
        (w.finish cb 0).1.conn.flushQueued = w.conn.flushQueued ∧
        (w.finish cb 0).1.conn.fdEvent.writeCallback = none ∧
        ∀ frame ∈ (w.finish cb 0).1.stack, frame.flushes = false := by
      simp only [World.finish, ne_eq, not_true_eq_false, if_false, World.connectEstablished,
        World.clearCallbacks, World.push, hstate, hstack]
      split <;> simp [Frame.flushes]
    obtain ⟨hc, hbuffer, hqueued, hwrite, hframes⟩ := hest
    rcases hf.armed hc (hbuffer ▸ hne) with hq | hw | ⟨frame, hmem, hflushes⟩
    · exact hqueued ▸ hq
    · exact absurd (hwrite.symm.trans hw) (by simp)
    · exact absurd ((hframes frame hmem).symm.trans hflushes) (by simp)
  · exact fun harmed => finish_flushed h (by simp [hstate]) cb fun _ _ => harmed

/-! ## Runs -/

/-- The condition on the steps that establish a connection: what was sent before is flushed
    already, or a flush is queued for it. -/
def ArmedAtConnect (w : World) : Label → Prop
  | .call .connectEstablished => w.conn.state = .notConnected →
      (∀ cb, w.conn.fdEvent.writeCallback ≠ some (.finish cb)) ∧
        (w.conn.outBuffer.readable ≠ [] → Armed w)
  | .writable soError => ∀ cb, w.conn.fdEvent.writeCallback = some (.finish cb) →
      soError = 0 → w.conn.state = .notConnected → w.conn.outBuffer.readable ≠ [] →
        w.conn.flushQueued = true
  | .error soError => ∀ cb, w.conn.fdEvent.errorCallback = some (.finish cb) →
      soError = 0 → w.conn.state = .notConnected → w.conn.outBuffer.readable ≠ [] →
        w.conn.flushQueued = true
  | _ => True

instance (w : World) : DecidablePred (ArmedAtConnect w)
  | .call .connectEstablished => inferInstanceAs (Decidable (_ → (∀ _, _) ∧ (_ → _)))
  | .writable _ => inferInstanceAs (Decidable (∀ _, _ → _ → _ → _ → _))
  | .error _ => inferInstanceAs (Decidable (∀ _, _ → _ → _ → _ → _))
  | .call (.send _) | .call .shutdown | .call (.connectInProgress _) | .call .connectDestroyed
  | .call .incrInFlight | .call .decrInFlight | .call (.setDirectOutputFlush _)
  | .readable _ | .task | .returns | .resume _ _ | .foreign _ _ => .isTrue trivial

theorem drain_flushed {w : World} (h : Flushed w) (round batch : Nat)
    (messages : List AbstractProtocol) (sees : Bool) :
    Flushed (w.drain crc round batch messages sees).1 := by
  unfold World.drain
  split
  · have hclear : Flushed { w with conn := { w.conn with writeQueued := false } } :=
      h.of_same rfl rfl rfl rfl id fun _ hmem _ => hmem
    exact hclear.push [.drainCheck]
  split
  · rename_i node rest _
    have hpop : Flushed { w with conn := { w.conn with writeQueue := rest } } :=
      h.of_same rfl rfl rfl rfl id fun _ hmem _ => hmem
    exact hpop.push _
  · exact sendInLoopBatch_flushed (h.push [.drain (round + 1) 0 []]) messages

theorem call_flushed {w : World} (h : Flushed w) (c : Call) (hok : ArmedAtConnect w (.call c)) :
    Flushed (w.call crc c).1 := by
  cases c with
  | send message =>
    cases message with
    | none => exact h
    | some message =>
      simp only [World.call]
      split
      · exact h
      · exact sendInLoopBatch_flushed h [message]
  | shutdown => exact shutdownInLoop_flushed h
  | connectEstablished =>
    exact connectEstablished_flushed h (fun hn => (hok hn).1) fun hn => (hok hn).2
  | connectInProgress cb => exact connectInProgress_flushed h cb
  | connectDestroyed => exact flushed_of_state h.queued (by simp [World.call, World.close])
  | incrInFlight | decrInFlight | setDirectOutputFlush _ =>
    exact h.of_same rfl rfl rfl rfl id fun _ hmem _ => hmem

theorem resume_flushed {w w' : World} {frame : Frame} {stack : List Frame}
    {results : List (Except Errno Nat)} {sees : Bool} {es : List Event} (h : Flushed w)
    (hstack : w.stack = frame :: stack)
    (hs : ({ w with stack } : World).resume crc results sees frame = some (w', es)) :
    Flushed w' := by
  have hbase : Base { w with stack } := h.toBase.of_same rfl rfl rfl id
  -- a frame that does not flush is not missed
  have hpop : frame.flushes = false → Flushed { w with stack } := fun hf =>
    h.of_same rfl rfl rfl rfl id fun frame' hmem hf' => by
      rcases List.mem_cons.mp (hstack ▸ hmem) with rfl | hmem
      · exact absurd (hf.symm.trans hf') (by simp)
      · exact hmem
  cases frame with
  | user => exact absurd hs (by simp [World.resume])
  | sendFlush =>
    obtain ⟨rfl, -⟩ := Prod.mk.inj (Option.some.inj hs)
    exact sendFlush_flushed hbase
  | flush => exact flush_flushed hbase hs
  | writeCompleted =>
    obtain ⟨rfl, -⟩ := Prod.mk.inj (Option.some.inj hs)
    exact writeCompleted_flushed (hpop rfl) true
  | restoreDefer previous =>
    obtain ⟨rfl, -⟩ := Prod.mk.inj (Option.some.inj hs)
    exact (hpop rfl).of_same rfl rfl rfl rfl id fun _ hmem _ => hmem
  | drain round batch messages =>
    obtain ⟨rfl, -⟩ := Prod.mk.inj (Option.some.inj hs)
    exact drain_flushed (hpop rfl) round batch messages sees
  | drainCheck =>
    obtain ⟨rfl, -⟩ := Prod.mk.inj (Option.some.inj hs)
    unfold World.drainCheck
    split
    · exact hpop rfl
    · exact (hpop rfl).push [.drainArm]
  | drainArm =>
    obtain ⟨rfl, -⟩ := Prod.mk.inj (Option.some.inj hs)
    unfold World.drainArm
    split
    · exact hpop rfl
    · have hset : Flushed { w with stack, conn := { w.conn with writeQueued := true } } :=
        (hpop rfl).of_same rfl rfl rfl rfl id fun _ hmem _ => hmem
      exact hset.push [.drainQueue]
  | drainQueue =>
    obtain ⟨rfl, -⟩ := Prod.mk.inj (Option.some.inj hs)
    exact (hpop rfl).of_same rfl rfl rfl rfl (List.mem_append_left _) fun _ hmem _ => hmem
  | connectDone cb =>
    obtain ⟨rfl, -⟩ := Prod.mk.inj (Option.some.inj hs)
    exact connectCallback_flushed (hpop rfl) cb 0

theorem foreign_flushed {w w' : World} {t : ThreadId} {sender : Sender} {f : Foreign}
    (h : Flushed w) (hs : w.foreign t sender f = some w') : Flushed w' := by
  have hsame : ∀ {v : World}, v.conn.state = w.conn.state → v.conn.fdEvent = w.conn.fdEvent →
      v.conn.flushQueued = w.conn.flushQueued → v.conn.outBuffer = w.conn.outBuffer →
      (.flush ∈ w.tasks → .flush ∈ v.tasks) → v.stack = w.stack → Flushed v :=
    fun hstate hfd hq hout ht hstack => h.of_same hstate hfd hq hout ht
      fun _ hmem _ => hstack ▸ hmem
  cases foreignSteps_of_foreign hs with
  | ignored | rejected => exact h
  | shutdown | queued => exact hsame rfl rfl rfl rfl (List.mem_append_left _) rfl
  | entered | incrInFlight | decrInFlight | pushed | linked | flagSet | armed =>
    exact hsame rfl rfl rfl rfl id rfl

theorem step_flushed {w w' : World} {l : Label} {es : List Event} (h : Flushed w)
    (hok : ArmedAtConnect w l) (hs : w.step crc l = some (w', es)) : Flushed w' := by
  cases acts_of_step hs with
  | read hstack hcb hread => exact handleRead_flushed h hread
  | unread | unwritten | unfailed => exact h
  | write soError hstack hcb => exact handleWrite_flushed h.toBase
  | @finishWrite soError cb hstack hcb =>
    exact finish_flushed h.toBase (fun hc => (h.ours hc cb).1 hcb) cb (hok cb hcb)
  | fail soError hstack hcb => exact handleClose_flushed h.toBase .fdError
  | @finishError soError cb hstack hcb =>
    exact finish_flushed h.toBase (fun hc => (h.ours hc cb).2 hcb) cb (hok cb hcb)
  | @task task tasks hstack htasks =>
    cases task with
    | drain =>
      have hrest : Flushed { w with tasks } := h.of_same rfl rfl rfl rfl
        (fun hmem => by simpa [htasks] using hmem) fun _ hmem _ => hmem
      exact hrest.push [.drain 0 0 []]
    | flush =>
      exact handleWrite_flushed
        ⟨fun hq => absurd hq (by simp), fun hc => h.ours hc⟩
    | shutdown =>
      have hrest : Flushed { w with tasks } := h.of_same rfl rfl rfl rfl
        (fun hmem => by simpa [htasks] using hmem) fun _ hmem _ => hmem
      exact shutdownInLoop_flushed hrest
  | call c huser => exact call_flushed h c hok
  | returns hstack =>
    refine h.of_same rfl rfl rfl rfl id fun frame hmem hf => ?_
    rcases List.mem_cons.mp (hstack ▸ hmem) with rfl | hmem
    · simp [Frame.flushes] at hf
    · exact hmem
  | resume hstack hresume => exact resume_flushed h hstack hresume
  | foreign hforeign => exact foreign_flushed h hforeign

/-- In a run whose connection is established with its earlier output looked after, an
    established connection with bytes in its output buffer that is at rest has a flush queued,
    or listens to `OUT_EVENT` for one. -/
theorem output_armed (crc : Bytes → UInt32) (callbacks : Callbacks) (highWaterMark : Nat)
    (ls : List Label) (w : World) (es : List Event)
    (hok : RunOk (World.step crc) ArmedAtConnect (World.new callbacks highWaterMark) ls)
    (hrun : run (World.step crc) (World.new callbacks highWaterMark) ls = some (w, es))
    (hrest : w.stack = []) (hconn : w.conn.state = .connected)
    (hout : w.conn.outBuffer.readable ≠ []) :
    (w.conn.flushQueued = true ∧ .flush ∈ w.tasks) ∨
      w.conn.fdEvent.writeCallback = some .handleWrite := by
  have hnew : Flushed (World.new callbacks highWaterMark) :=
    flushed_of_state (by simp [World.new]) (by simp [World.new])
  have h : Flushed w := runOk_induction (fun v _ => Flushed v)
    (fun v _ l v' _ hv hl hs => step_flushed hv hl hs) [] hnew hok hrun
  rcases h.armed hconn hout with hq | hw | ⟨frame, hmem, -⟩
  · exact Or.inl ⟨hq, h.queued hq⟩
  · exact Or.inr hw
  · simp [hrest] at hmem

/-- A message is sent before the connect, and its flush task is behind the result. -/
def sentBefore : List Label :=
  [.call (.send (some (.tinyPB { msgId := [49] }))), .resume [] false,
    .call (.connectInProgress false), .writable 0, .resume [] false]

theorem output_armed_sent_before :
    ∃ w es, run (World.step fun _ => 0) (World.new ⟨true, false, true, true, true⟩ 0) sentBefore =
        some (w, es) ∧
      ((w.conn.flushQueued = true ∧ .flush ∈ w.tasks) ∨
        w.conn.fdEvent.writeCallback = some .handleWrite) := by
  have hrun : (run (World.step fun _ => 0) (World.new ⟨true, false, true, true, true⟩ 0)
      sentBefore).map (fun r => (r.1.stack, r.1.conn.state, r.1.conn.outBuffer.readable.isEmpty)) =
      some ([], .connected, false) := by
    decide +kernel
  obtain ⟨⟨w, es⟩, hw, heq⟩ := Option.map_eq_some_iff.mp hrun
  obtain ⟨hrest, hconn, hout⟩ : w.stack = [] ∧ w.conn.state = .connected ∧
      w.conn.outBuffer.readable.isEmpty = false := by simpa using heq
  exact ⟨w, es, hw, output_armed (fun _ => 0) _ 0 _ w es (by decide +kernel) hw hrest hconn
    (by simpa using hout)⟩

/-- A message is sent while the connect is under way: it stays in the output buffer. -/
theorem output_armed_stranded :
    ∃ ls w es, run (World.step fun _ => 0) (World.new ⟨true, false, true, true, true⟩ 0) ls =
        some (w, es) ∧ w.stack = [] ∧ w.conn.state = .connected ∧
      w.conn.outBuffer.readable ≠ [] ∧
      ¬ ((w.conn.flushQueued = true ∧ .flush ∈ w.tasks) ∨
        w.conn.fdEvent.writeCallback = some .handleWrite) := by
  have hrun : (run (World.step fun _ => 0) (World.new ⟨true, false, true, true, true⟩ 0)
      [.call (.connectInProgress false), .call (.send (some (.tinyPB { msgId := [49] }))),
        .resume [] false, .writable 0, .resume [] false]).map
      (fun r => decide (r.1.stack = [] ∧ r.1.conn.state = .connected ∧
        r.1.conn.outBuffer.readable ≠ [] ∧ r.1.conn.flushQueued = false ∧
          r.1.conn.fdEvent.writeCallback = none)) = some true := by
    decide +kernel
  obtain ⟨⟨w, es⟩, hw, heq⟩ := Option.map_eq_some_iff.mp hrun
  obtain ⟨hrest, hconn, hout, hqueued, hwrite⟩ := of_decide_eq_true heq
  refine ⟨_, w, es, hw, hrest, hconn, hout, fun h => ?_⟩
  rcases h with ⟨hq, -⟩ | hw
  · exact absurd (hqueued.symm.trans hq) (by simp)
  · exact absurd (hwrite.symm.trans hw) (by simp)

end RocketRpc.Net
