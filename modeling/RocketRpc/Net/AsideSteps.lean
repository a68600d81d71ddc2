import RocketRpc.Net.OutputStream

/-
  The steps of a connection that leave the write queue alone.

  Most functions of the connection neither pop a message nor encode one, and what they leave
  on the stack of the loop keeps no message. `Batches` says the same of `sendInLoopBatch`,
  with what it encodes.
-/

namespace RocketRpc.Net

open RocketRpc.Tcp RocketRpc.Coder

variable {crc : Bytes → UInt32}

/-- The messages that a round of a drain has kept. -/
def Frame.kept : Frame → List AbstractProtocol
  | .drain _ _ messages => messages
  | _ => []

/-- The queue and the senders stay as they are, nothing is encoded, and the loop gets further
    work that has no messages with it. Nobody sets `m_write_queued` without a drain to queue. -/
structure Aside (w w' : World) (es : List Event) : Prop where
  queue : w'.conn.writeQueue = w.conn.writeQueue
  senders : w'.senders = w.senders
  stack : ∃ fs, w'.stack = fs ++ w.stack ∧ ∀ f ∈ fs, f.kept = []
  encoded : encodedMessages es = []
  tasks : w.tasks ⊆ w'.tasks
  flag : w'.conn.writeQueued = true → w.conn.writeQueued = true ∨ .drainQueue ∈ w'.stack

theorem Aside.refl (w : World) : Aside w w [] :=
  ⟨rfl, rfl, ⟨[], rfl, by simp⟩, rfl, List.Subset.refl _, Or.inl⟩

theorem Aside.trans {w w₁ w₂ : World} {es fs : List Event} (h : Aside w w₁ es)
    (h' : Aside w₁ w₂ fs) : Aside w w₂ (es ++ fs) := by
  obtain ⟨gs, hgs, hkept⟩ := h.stack
  obtain ⟨gs', hgs', hkept'⟩ := h'.stack
  refine ⟨h'.queue.trans h.queue, h'.senders.trans h.senders, ⟨gs' ++ gs, ?_, ?_⟩, ?_,
    List.Subset.trans h.tasks h'.tasks, fun hflag => ?_⟩
  · rw [hgs', hgs, List.append_assoc]
  · intro f hf
    exact (List.mem_append.mp hf).elim (hkept' f) (hkept f)
  · rw [encodedMessages_append, h.encoded, h'.encoded, List.append_nil]
  · rcases h'.flag hflag with hflag | hmem
    · refine (h.flag hflag).imp_right fun hmem => ?_
      rw [hgs']
      exact List.mem_append_right _ hmem
    · exact Or.inr hmem

theorem aside_of_same {w w' : World} {es : List Event}
    (hqueue : w'.conn.writeQueue = w.conn.writeQueue) (hsenders : w'.senders = w.senders)
    (hstack : w'.stack = w.stack) (hes : encodedMessages es = []) (htasks : w.tasks ⊆ w'.tasks)
    (hflag : w'.conn.writeQueued = w.conn.writeQueued) : Aside w w' es :=
  ⟨hqueue, hsenders, ⟨[], hstack, by simp⟩, hes, htasks, fun h => Or.inl (hflag ▸ h)⟩

theorem aside_push (w : World) {fs : List Frame} {es : List Event}
    (hfs : ∀ f ∈ fs, f.kept = []) (hes : encodedMessages es = []) : Aside w (w.push fs) es :=
  ⟨rfl, rfl, ⟨fs, rfl, hfs⟩, hes, List.Subset.refl _, Or.inl⟩

theorem close_aside (w : World) (why : Why) : Aside w (w.close why).1 (w.close why).2 := by
  refine aside_of_same rfl rfl rfl ?_ (List.Subset.refl _) rfl
  unfold World.close
  split <;> rfl

theorem handleClose_aside (w : World) (why : Why) :
    Aside w (w.handleClose why).1 (w.handleClose why).2 := by
  unfold World.handleClose
  split
  · exact .refl w
  split
  · exact (close_aside w why).trans (aside_push _ (by simp [Frame.kept]) rfl)
  · exact close_aside w why

theorem scheduleOutputFlush_aside (w : World) : Aside w w.scheduleOutputFlush [] := by
  unfold World.scheduleOutputFlush
  split
  · exact .refl w
  · exact aside_of_same rfl rfl rfl rfl (List.subset_append_left _ _) rfl

theorem sendFlush_aside (w : World) : Aside w w.sendFlush [] := by
  unfold World.sendFlush
  split
  · exact aside_push w (by simp [Frame.kept]) rfl
  · exact scheduleOutputFlush_aside w

theorem recoverMark_aside (w : World) : Aside w w.recoverMark [] := by
  unfold World.recoverMark
  split
  · exact aside_of_same rfl rfl rfl rfl (List.Subset.refl _) rfl
  · exact .refl w

theorem writeCompleted_aside (w : World) (allWritten : Bool) :
    Aside w (w.writeCompleted allWritten).1 (w.writeCompleted allWritten).2 := by
  unfold World.writeCompleted
  split
  · exact (recoverMark_aside w).trans (handleClose_aside _ .drained)
  · exact recoverMark_aside w

theorem disableWriting_aside (w : World) : Aside w w.disableWriting [] := by
  unfold World.disableWriting
  split
  · exact aside_of_same rfl rfl rfl rfl (List.Subset.refl _) rfl
  · exact .refl w

theorem enableWriting_aside (w : World) : Aside w w.enableWriting [] := by
  unfold World.enableWriting
  split
  · exact .refl w
  · exact aside_of_same rfl rfl rfl rfl (List.Subset.refl _) rfl

theorem updateWriteInterest_aside (w : World) (allWritten : Bool) :
    Aside w (w.updateWriteInterest allWritten).1 (w.updateWriteInterest allWritten).2 := by
  unfold World.updateWriteInterest
  split
  · split
    · exact (disableWriting_aside w).trans (aside_push _ (by simp [Frame.kept]) rfl)
    · exact (disableWriting_aside w).trans (writeCompleted_aside _ true)
  · exact (enableWriting_aside w).trans (writeCompleted_aside _ false)

theorem flush_aside {w w' : World} {results : List (Except Errno Nat)} {es : List Event}
    (h : w.flush results = some (w', es)) : Aside w w' es := by
  obtain ⟨⟨ended, out, bytes⟩, -, heq⟩ := Option.map_eq_some_iff.mp h
  have hset : Aside w (w.setOutBuffer out) [.accepted bytes] :=
    aside_of_same rfl rfl rfl rfl (List.Subset.refl _) rfl
  cases ended with
  | failed e =>
    obtain ⟨rfl, rfl⟩ := Prod.mk.inj heq
    exact hset.trans (handleClose_aside _ (.writeError e))
  | stopped =>
    obtain ⟨rfl, rfl⟩ := Prod.mk.inj heq
    refine hset.trans ?_
    dsimp only
    split
    · exact .refl _
    · exact updateWriteInterest_aside _ _

theorem handleWrite_aside (w : World) : Aside w w.handleWrite [] := by
  unfold World.handleWrite
  split
  · exact aside_push w (by simp [Frame.kept]) rfl
  · exact .refl w

theorem decodeInput_aside (w : World) :
    Aside w (w.decodeInput crc).1 (w.decodeInput crc).2 := by
  unfold World.decodeInput
  dsimp only
  have hin : Aside w (w.setInBuffer (decode crc w.conn.inBuffer).2) [] :=
    aside_of_same rfl rfl rfl rfl (List.Subset.refl _) rfl
  split
  · exact hin.trans (handleClose_aside _ .decode)
  split
  · split
    · exact ⟨rfl, rfl, ⟨_, rfl, by simp [Frame.kept]⟩, rfl, List.Subset.refl _, Or.inl⟩
    · exact ⟨rfl, rfl, ⟨_, rfl, by simp [Frame.kept]⟩, rfl, List.Subset.refl _, Or.inl⟩
  · exact hin

theorem handleRead_aside {w w' : World} {results : List (Except Errno Bytes)}
    {es : List Event} (h : w.handleRead crc results = some (w', es)) : Aside w w' es := by
  unfold World.handleRead at h
  split at h
  · obtain ⟨rfl, rfl⟩ := Prod.mk.inj (Option.some.inj h)
    exact .refl w
  obtain ⟨⟨ended, b⟩, -, heq⟩ := Option.map_eq_some_iff.mp h
  have hin : Aside w (w.setInBuffer b) [] := aside_of_same rfl rfl rfl rfl (List.Subset.refl _) rfl
  cases ended with
  | failed e =>
    obtain ⟨rfl, rfl⟩ := Prod.mk.inj heq
    exact hin.trans (handleClose_aside _ (.readError e))
  | closed =>
    obtain ⟨rfl, rfl⟩ := Prod.mk.inj heq
    exact hin.trans (handleClose_aside _ .eof)
  | drained =>
    obtain ⟨rfl, rfl⟩ := Prod.mk.inj heq
    exact hin.trans (decodeInput_aside _)

theorem shutdownInLoop_aside (w : World) : Aside w w.shutdownInLoop [] := by
  unfold World.shutdownInLoop
  split
  · exact .refl w
  · exact aside_of_same rfl rfl rfl rfl (List.Subset.refl _) rfl

theorem connectEstablished_aside (w : World) :
    Aside w w.connectEstablished.1 w.connectEstablished.2 := by
  unfold World.connectEstablished
  split
  · exact .refl w
  dsimp only
  split
  · exact ⟨rfl, rfl, ⟨[.user], rfl, by simp [Frame.kept]⟩, rfl, List.Subset.refl _, Or.inl⟩
  · exact aside_of_same rfl rfl rfl rfl (List.Subset.refl _) rfl

theorem connectCallback_aside (w : World) (cb : Bool) (errorCode : Nat) :
    Aside w (w.connectCallback cb errorCode).1 (w.connectCallback cb errorCode).2 := by
  unfold World.connectCallback
  split
  · exact aside_push w (by simp [Frame.kept]) rfl
  · exact .refl w

theorem connectInProgress_aside (w : World) (cb : Bool) :
    Aside w (w.connectInProgress cb).1 (w.connectInProgress cb).2 := by
  unfold World.connectInProgress
  split
  · exact connectCallback_aside w cb EISCONN
  · exact aside_of_same rfl rfl rfl rfl (List.Subset.refl _) rfl

theorem finish_aside (w : World) (cb : Bool) (soError : Nat) :
    Aside w (w.finish cb soError).1 (w.finish cb soError).2 := by
  have hclear : Aside w w.clearCallbacks [] :=
    aside_of_same rfl rfl rfl rfl (List.Subset.refl _) rfl
  unfold World.finish
  split
  · exact hclear.trans ((close_aside _ .connectFailed).trans (connectCallback_aside _ cb soError))
  · have hpush : Aside w.clearCallbacks (w.clearCallbacks.push [.connectDone cb]) [] :=
      aside_push _ (by simp [Frame.kept]) rfl
    exact hclear.trans (hpush.trans (connectEstablished_aside _))

/-- A frame that is not of a drain. -/
theorem resume_aside {w w' : World} {frame : Frame} {results : List (Except Errno Nat)}
    {sees : Bool} {es : List Event} (hnot : ∀ r b ms, frame ≠ .drain r b ms)
    (hs : w.resume crc results sees frame = some (w', es)) : Aside w w' es := by
  cases frame with
  | user => exact absurd hs (by simp [World.resume])
  | sendFlush =>
    obtain ⟨rfl, rfl⟩ := Prod.mk.inj (Option.some.inj hs)
    exact sendFlush_aside w
  | flush => exact flush_aside hs
  | writeCompleted =>
    obtain ⟨rfl, rfl⟩ := Prod.mk.inj (Option.some.inj hs)
    exact writeCompleted_aside w true
  | restoreDefer previous =>
    obtain ⟨rfl, rfl⟩ := Prod.mk.inj (Option.some.inj hs)
    exact aside_of_same rfl rfl rfl rfl (List.Subset.refl _) rfl
  | drain r b ms => exact absurd rfl (hnot r b ms)
  | drainCheck =>
    obtain ⟨rfl, rfl⟩ := Prod.mk.inj (Option.some.inj hs)
    unfold World.drainCheck
    split
    · exact .refl w
    · exact aside_push w (by simp [Frame.kept]) rfl
  | drainArm =>
    obtain ⟨rfl, rfl⟩ := Prod.mk.inj (Option.some.inj hs)
    unfold World.drainArm
    split
    · exact .refl w
    · exact ⟨rfl, rfl, ⟨[.drainQueue], rfl, by simp [Frame.kept]⟩, rfl, List.Subset.refl _,
        fun _ => Or.inr List.mem_cons_self⟩
  | drainQueue =>
    obtain ⟨rfl, rfl⟩ := Prod.mk.inj (Option.some.inj hs)
    exact aside_of_same rfl rfl rfl rfl (List.subset_append_left _ _) rfl
  | connectDone cb =>
    obtain ⟨rfl, rfl⟩ := Prod.mk.inj (Option.some.inj hs)
    exact connectCallback_aside w cb 0

theorem runTask_aside (w : World) (task : Task) : Aside w (w.runTask task) [] := by
  cases task with
  | drain => exact aside_push w (by simp [Frame.kept]) rfl
  | flush =>
    have hreset : Aside w { w with conn := { w.conn with flushQueued := false } } [] :=
      aside_of_same rfl rfl rfl rfl (List.Subset.refl _) rfl
    exact hreset.trans (handleWrite_aside _)
  | shutdown => exact shutdownInLoop_aside w

/-- What `sendInLoopBatch` does beside the queue, and what it encodes. -/
structure Batches (crc : Bytes → UInt32) (w w' : World) (messages : List AbstractProtocol)
    (es : List Event) : Prop where
  queue : w'.conn.writeQueue = w.conn.writeQueue
  senders : w'.senders = w.senders
  stack : ∃ fs, w'.stack = fs ++ w.stack ∧ ∀ f ∈ fs, f.kept = []
  encoded : encodedMessages es =
    if !w.conn.rejects && (encode crc messages w.conn.outBuffer).1 then sealedAll crc messages
    else []
  failed : w.conn.rejects = false → (encode crc messages w.conn.outBuffer).1 = false →
    w'.conn.state = .closed
  closed : w.conn.state = .closed → w'.conn.state = .closed
  tasks : w.tasks ⊆ w'.tasks
  flag : w'.conn.writeQueued = true → w.conn.writeQueued = true ∨ .drainQueue ∈ w'.stack

theorem sendInLoopBatch_batches (w : World) (messages : List AbstractProtocol) :
    Batches crc w (w.sendInLoopBatch crc messages).1 messages
      (w.sendInLoopBatch crc messages).2 := by
  unfold World.sendInLoopBatch
  split
  · rename_i hrej
    exact ⟨rfl, rfl, ⟨[], rfl, by simp⟩, by simp [hrej, encodedMessages], by simp [hrej], id,
      List.Subset.refl _, Or.inl⟩
  rename_i hrej
  have hrej : w.conn.rejects = false := by simpa using hrej
  split
  · rename_i hnil
    subst hnil
    exact ⟨rfl, rfl, ⟨[], rfl, by simp⟩, by simp [encodedMessages, sealedAll],
      fun _ hfail => by simp [encode] at hfail, id, List.Subset.refl _, Or.inl⟩
  dsimp only
  split
  · rename_i hfail
    have hfail : (encode crc messages w.conn.outBuffer).1 = false := by simpa using hfail
    have haside :=
      handleClose_aside (w.setOutBuffer (encode crc messages w.conn.outBuffer).2.2) .encode
    exact ⟨haside.queue, haside.senders, haside.stack, by simp [haside.encoded, hfail],
      fun _ _ => handleClose_closed _ _, fun _ => handleClose_closed _ _, haside.tasks,
      haside.flag⟩
  rename_i hok
  have hok : (encode crc messages w.conn.outBuffer).1 = true := by simpa using hok
  have hsealed := (encode_ok hok).1
  split
  · split
    · exact ⟨rfl, rfl, ⟨[.user, .sendFlush], rfl, by simp [Frame.kept]⟩,
        by simp [encodedMessages, Event.encodedMessages, hrej, hok, hsealed], by simp [hok],
        id, List.Subset.refl _, Or.inl⟩
    · exact ⟨rfl, rfl, ⟨[.sendFlush], rfl, by simp [Frame.kept]⟩,
        by simp [encodedMessages, Event.encodedMessages, hrej, hok, hsealed], by simp [hok],
        id, List.Subset.refl _, Or.inl⟩
  · exact ⟨rfl, rfl, ⟨[.sendFlush], rfl, by simp [Frame.kept]⟩,
      by simp [encodedMessages, Event.encodedMessages, hrej, hok, hsealed], by simp [hok],
      id, List.Subset.refl _, Or.inl⟩

end RocketRpc.Net
