import RocketRpc.Net.Lifecycle

/-
  The end of a graceful close.

  A connection that is half closed with nothing left to write has shut its write side down,
  has requests in flight, or is still to look at them behind the write-complete callback
  (`Finishing`). Only `shutdownInLoop` and the end of a flush look, so a decrement of
  `m_in_flight` that comes later finishes nothing: `Rechecked` is the condition on the steps
  that change the counter, and `half_close_finishes` what it is good for.
-/

namespace RocketRpc.Net

open RocketRpc.Tcp RocketRpc.Coder Machine

variable {crc : Bytes → UInt32}

/-- Nobody comes back to a graceful close that has nothing left to write. -/
structure Stalled (w : World) : Prop where
  state : w.conn.state = .halfClosing
  written : w.conn.outBuffer.readAble = 0
  notShut : w.conn.writeShut = false
  notBehind : .writeCompleted ∉ w.stack

instance (w : World) : Decidable (Stalled w) :=
  decidable_of_iff (w.conn.state = .halfClosing ∧ w.conn.outBuffer.readAble = 0 ∧
    w.conn.writeShut = false ∧ .writeCompleted ∉ w.stack)
    ⟨fun ⟨h₁, h₂, h₃, h₄⟩ => ⟨h₁, h₂, h₃, h₄⟩, fun h => ⟨h.1, h.2, h.3, h.4⟩⟩

/-- A stalled close waits for a request in flight. -/
def Finishing (w : World) : Prop := Stalled w → w.conn.inFlight ≠ 0

/-- What a step adds to the requests in flight. -/
def Label.inFlightDelta : Label → Int
  | .call .incrInFlight | .foreign _ .incrInFlight => 1
  | .call .decrInFlight | .foreign _ .decrInFlight => -1
  | _ => 0

/-- The condition on a step: it does not take the last request in flight from a stalled
    close. -/
def Rechecked (w : World) (l : Label) : Prop :=
  l.inFlightDelta ≠ 0 → Stalled w → w.conn.inFlight + l.inFlightDelta ≠ 0

instance (w : World) : DecidablePred (Rechecked w) := fun _ =>
  inferInstanceAs (Decidable (_ → _ → _ ≠ _))

/-! ## Steps beside the close -/

/-- A connection that is half closed behind the step was so before, with the same output and
    the same requests in flight, and the loop comes back to all it would come back to. -/
structure Beside (w w' : World) : Prop where
  half : w'.conn.state = .halfClosing → w.conn.state = .halfClosing ∧
    w'.conn.outBuffer = w.conn.outBuffer ∧ w'.conn.writeShut = w.conn.writeShut ∧
    w'.conn.inFlight = w.conn.inFlight
  stack : ∀ f ∈ w.stack, f ∈ w'.stack

theorem Beside.refl (w : World) : Beside w w := ⟨fun h => ⟨h, rfl, rfl, rfl⟩, fun _ => id⟩

theorem Beside.trans {w w₁ w₂ : World} (h : Beside w w₁) (h' : Beside w₁ w₂) : Beside w w₂ := by
  refine ⟨fun hhalf => ?_, fun f hf => h'.stack f (h.stack f hf)⟩
  obtain ⟨hhalf₁, hout', hshut', hflight'⟩ := h'.half hhalf
  obtain ⟨hhalf₀, hout, hshut, hflight⟩ := h.half hhalf₁
  exact ⟨hhalf₀, hout'.trans hout, hshut'.trans hshut, hflight'.trans hflight⟩

theorem Beside.finishing {w w' : World} (h : Beside w w') (hw : Finishing w) : Finishing w' := by
  intro hs
  obtain ⟨hhalf, hout, hshut, hflight⟩ := h.half hs.state
  rw [hflight]
  exact hw ⟨hhalf, hout ▸ hs.written, hshut ▸ hs.notShut, fun hf => hs.notBehind (h.stack _ hf)⟩

/-- What is not half closed behind the step is of no concern. -/
theorem Onward.beside {n : Nat} {w w' : World} {es : List Event} (h : Onward n w w' es)
    (hstate : w'.conn.state ≠ .halfClosing) : Beside w w' := by
  obtain ⟨fs, hfs, -⟩ := h.stack
  exact ⟨fun hhalf => absurd hhalf hstate, fun f hf => hfs ▸ List.mem_append_right _ hf⟩

theorem handleClose_beside (w : World) (why : Why) : Beside w (w.handleClose why).1 :=
  (handleClose_onward w why).beside (by rw [handleClose_closed]; simp)

theorem beside_of_same {w w' : World} (hstate : w'.conn.state = w.conn.state)
    (hout : w'.conn.outBuffer = w.conn.outBuffer) (hshut : w'.conn.writeShut = w.conn.writeShut)
    (hflight : w'.conn.inFlight = w.conn.inFlight) (hstack : ∃ fs, w'.stack = fs ++ w.stack) :
    Beside w w' := by
  obtain ⟨fs, hfs⟩ := hstack
  exact ⟨fun h => ⟨hstate ▸ h, hout, hshut, hflight⟩, fun f hf => hfs ▸ List.mem_append_right _ hf⟩

theorem beside_push (w : World) (fs : List Frame) : Beside w (w.push fs) :=
  beside_of_same rfl rfl rfl rfl ⟨fs, rfl⟩

theorem scheduleOutputFlush_beside (w : World) : Beside w w.scheduleOutputFlush := by
  unfold World.scheduleOutputFlush
  split
  · exact .refl w
  · exact beside_of_same rfl rfl rfl rfl ⟨[], rfl⟩

theorem sendFlush_beside (w : World) : Beside w w.sendFlush := by
  unfold World.sendFlush
  split
  · exact beside_push w _
  · exact scheduleOutputFlush_beside w

theorem sendInLoopBatch_state (w : World) (messages : List AbstractProtocol) :
    (w.sendInLoopBatch crc messages).1.conn.state = w.conn.state ∨
      (w.sendInLoopBatch crc messages).1.conn.state = .closed := by
  unfold World.sendInLoopBatch
  split
  · exact Or.inl rfl
  split
  · exact Or.inl rfl
  dsimp only
  split
  · exact Or.inr (handleClose_closed _ _)
  split
  · split <;> exact Or.inl rfl
  · exact Or.inl rfl

/-- A half-closed connection encodes nothing. -/
theorem sendInLoopBatch_beside (w : World) (messages : List AbstractProtocol) :
    Beside w (w.sendInLoopBatch crc messages).1 := by
  by_cases hrej : w.conn.rejects = true
  · rw [World.sendInLoopBatch, if_pos hrej]
    exact .refl w
  · have hopen : w.conn.state ≠ .halfClosing := fun hs =>
      hrej (by simp [TcpConnection.rejects, hs])
    refine (sendInLoopBatch_onward w messages).beside fun hs => ?_
    rcases @sendInLoopBatch_state crc w messages with h | h
    · exact hopen (h.symm.trans hs)
    · exact absurd (h.symm.trans hs) (by simp)

theorem decodeInput_beside (w : World) : Beside w (w.decodeInput crc).1 := by
  unfold World.decodeInput
  dsimp only
  have hin : Beside w (w.setInBuffer (decode crc w.conn.inBuffer).2) :=
    beside_of_same rfl rfl rfl rfl ⟨[], rfl⟩
  split
  · exact hin.trans (handleClose_beside _ .decode)
  split
  · split <;> exact beside_of_same rfl rfl rfl rfl ⟨_, rfl⟩
  · exact hin

theorem handleRead_beside {w w' : World} {results : List (Except Errno Bytes)}
    {es : List Event} (h : w.handleRead crc results = some (w', es)) : Beside w w' := by
  unfold World.handleRead at h
  split at h
  · obtain ⟨rfl, -⟩ := Prod.mk.inj (Option.some.inj h)
    exact .refl w
  obtain ⟨⟨ended, b⟩, -, heq⟩ := Option.map_eq_some_iff.mp h
  have hin : Beside w (w.setInBuffer b) := beside_of_same rfl rfl rfl rfl ⟨[], rfl⟩
  cases ended with
  | failed e =>
    obtain ⟨rfl, -⟩ := Prod.mk.inj heq
    exact hin.trans (handleClose_beside _ (.readError e))
  | closed =>
    obtain ⟨rfl, -⟩ := Prod.mk.inj heq
    exact hin.trans (handleClose_beside _ .eof)
  | drained =>
    obtain ⟨rfl, -⟩ := Prod.mk.inj heq
    exact hin.trans (decodeInput_beside _)

theorem handleWrite_beside (w : World) : Beside w w.handleWrite := by
  unfold World.handleWrite
  split
  · exact beside_push w _
  · exact .refl w

theorem recoverMark_beside (w : World) : Beside w w.recoverMark := by
  unfold World.recoverMark
  split
  · exact beside_of_same rfl rfl rfl rfl ⟨[], rfl⟩
  · exact .refl w

theorem connectEstablished_beside (w : World) : Beside w w.connectEstablished.1 := by
  unfold World.connectEstablished
  split
  · exact .refl w
  dsimp only
  split
  · exact ⟨fun h => absurd h (by simp [World.push]), fun f hf => List.mem_cons_of_mem _ hf⟩
  · exact ⟨fun h => absurd h (by simp), fun _ => id⟩

theorem connectCallback_beside (w : World) (cb : Bool) (errorCode : Nat) :
    Beside w (w.connectCallback cb errorCode).1 := by
  unfold World.connectCallback
  split
  · exact beside_push w _
  · exact .refl w

theorem close_beside (w : World) (why : Why) : Beside w (w.close why).1 :=
  (close_onward w why).beside (by simp [World.close])

theorem connectInProgress_beside (w : World) (cb : Bool) :
    Beside w (w.connectInProgress cb).1 := by
  unfold World.connectInProgress
  split
  · exact connectCallback_beside w cb EISCONN
  · exact beside_of_same rfl rfl rfl rfl ⟨[], rfl⟩

theorem finish_beside (w : World) (cb : Bool) (soError : Nat) :
    Beside w (w.finish cb soError).1 := by
  have hclear : Beside w w.clearCallbacks := beside_of_same rfl rfl rfl rfl ⟨[], rfl⟩
  unfold World.finish
  split
  · exact hclear.trans ((close_beside _ .connectFailed).trans (connectCallback_beside _ cb soError))
  · exact hclear.trans ((beside_push _ _).trans (connectEstablished_beside _))

theorem drain_beside (w : World) (round batch : Nat) (messages : List AbstractProtocol)
    (sees : Bool) : Beside w (w.drain crc round batch messages sees).1 := by
  unfold World.drain
  split
  · exact beside_of_same rfl rfl rfl rfl ⟨[_], rfl⟩
  split
  · exact beside_of_same rfl rfl rfl rfl ⟨[_], rfl⟩
  · exact (beside_push w _).trans (sendInLoopBatch_beside _ messages)

/-! ## Steps of the close -/

theorem finishing_of_closed {w : World} (h : w.conn.state = .closed) : Finishing w :=
  fun hs => absurd (h.symm.trans hs.state) (by simp)

/-- The end of a flush closes a connection that is half closed with nothing in flight. -/
theorem writeCompleted_finishing (w : World) : Finishing (w.writeCompleted true).1 := by
  unfold World.writeCompleted
  split
  · exact finishing_of_closed (handleClose_closed _ _)
  · rename_i hnot
    intro hs
    have hbeside := (recoverMark_beside w).half hs.state
    rw [hbeside.2.2.2]
    simpa [hbeside.1] using hnot

theorem updateWriteInterest_finishing (w : World) :
    Finishing (w.updateWriteInterest (w.conn.outBuffer.readAble == 0)).1 := by
  unfold World.updateWriteInterest
  split
  · split
    · exact fun hs => absurd (List.mem_cons_of_mem _ List.mem_cons_self) hs.notBehind
    · exact writeCompleted_finishing _
  · rename_i hsome
    intro hs
    have hout : w.enableWriting.recoverMark.conn.outBuffer = w.conn.outBuffer :=
      ((enableWriting_quiet w).trans (recoverMark_quiet _)).outBuffer
    have hwritten : w.enableWriting.recoverMark.conn.outBuffer.readAble = 0 := hs.written
    rw [hout] at hwritten
    exact absurd hwritten (by simpa using hsome)

theorem flush_finishing {w w' : World} {results : List (Except Errno Nat)} {es : List Event}
    (h : w.flush results = some (w', es)) : Finishing w' := by
  obtain ⟨⟨ended, out, bytes⟩, -, heq⟩ := Option.map_eq_some_iff.mp h
  cases ended with
  | failed e =>
    obtain ⟨rfl, -⟩ := Prod.mk.inj heq
    exact finishing_of_closed (handleClose_closed _ _)
  | stopped =>
    obtain ⟨rfl, -⟩ := Prod.mk.inj heq
    show Finishing (if (w.setOutBuffer out).conn.state = .closed then (w.setOutBuffer out, [])
      else (w.setOutBuffer out).updateWriteInterest ((w.setOutBuffer out).conn.outBuffer.readAble == 0)).1
    split
    · rename_i hclosed
      exact finishing_of_closed hclosed
    · exact updateWriteInterest_finishing _

/-- `shutdownInLoop` shuts the write side down where nothing is left to write. -/
theorem shutdownInLoop_finishing (w : World) : Finishing w.shutdownInLoop := by
  unfold World.shutdownInLoop
  split
  · rename_i hclosed
    exact finishing_of_closed hclosed
  · intro hs
    have hshut := hs.notShut
    have hwritten : w.conn.outBuffer.readAble = 0 := hs.written
    simp [hwritten] at hshut

/-- The loop goes on with a frame. -/
theorem resume_finishing {w w' : World} {frame : Frame} {stack : List Frame}
    {results : List (Except Errno Nat)} {sees : Bool} {es : List Event} (h : Finishing w)
    (hstack : w.stack = frame :: stack)
    (hs : { w with stack }.resume crc results sees frame = some (w', es)) : Finishing w' := by
  have hpopped : frame ≠ .writeCompleted → Finishing { w with stack } := fun hne hstalled =>
    h ⟨hstalled.state, hstalled.written, hstalled.notShut, by
      rw [hstack, List.mem_cons, not_or]
      exact ⟨Ne.symm hne, hstalled.notBehind⟩⟩
  cases frame with
  | user => exact absurd hs (by simp [World.resume])
  | sendFlush =>
    obtain ⟨rfl, -⟩ := Prod.mk.inj (Option.some.inj hs)
    exact (sendFlush_beside _).finishing (hpopped (by simp))
  | flush => exact flush_finishing hs
  | writeCompleted =>
    obtain ⟨rfl, -⟩ := Prod.mk.inj (Option.some.inj hs)
    exact writeCompleted_finishing _
  | restoreDefer previous =>
    obtain ⟨rfl, -⟩ := Prod.mk.inj (Option.some.inj hs)
    have hbeside : Beside { w with stack }
        { w with stack, conn := { w.conn with deferOutputFlush := previous } } :=
      beside_of_same rfl rfl rfl rfl ⟨[], rfl⟩
    exact hbeside.finishing (hpopped (by simp))
  | drain r b ms =>
    obtain ⟨rfl, -⟩ := Prod.mk.inj (Option.some.inj hs)
    exact (drain_beside _ r b ms sees).finishing (hpopped (by simp))
  | drainCheck =>
    obtain ⟨rfl, -⟩ := Prod.mk.inj (Option.some.inj hs)
    unfold World.drainCheck
    split
    · exact hpopped (by simp)
    · exact (beside_push _ _).finishing (hpopped (by simp))
  | drainArm =>
    obtain ⟨rfl, -⟩ := Prod.mk.inj (Option.some.inj hs)
    unfold World.drainArm
    split
    · exact hpopped (by simp)
    · have hbeside : Beside { w with stack }
          ({ w with stack, conn := { w.conn with writeQueued := true } }.push [.drainQueue]) :=
        beside_of_same rfl rfl rfl rfl ⟨[_], rfl⟩
      exact hbeside.finishing (hpopped (by simp))
  | drainQueue =>
    obtain ⟨rfl, -⟩ := Prod.mk.inj (Option.some.inj hs)
    have hbeside : Beside { w with stack } { w with stack, tasks := w.tasks ++ [.drain] } :=
      beside_of_same rfl rfl rfl rfl ⟨[], rfl⟩
    exact hbeside.finishing (hpopped (by simp))
  | connectDone cb =>
    obtain ⟨rfl, -⟩ := Prod.mk.inj (Option.some.inj hs)
    exact (connectCallback_beside _ cb 0).finishing (hpopped (by simp))

/-- Other threads change nothing of the close but the requests in flight. -/
theorem foreign_beside {w w' : World} {t : ThreadId} {sender : Sender} {f : Foreign}
    (hf : (Label.foreign t f).inFlightDelta = 0)
    (hs : w.foreign t sender f = some w') : Beside w w' := by
  have hsame : ∀ {v : World}, v.conn.state = w.conn.state → v.conn.outBuffer = w.conn.outBuffer →
      v.conn.writeShut = w.conn.writeShut → v.conn.inFlight = w.conn.inFlight →
      v.stack = w.stack → Beside w v := fun hstate hout hshut hflight hstack =>
    beside_of_same hstate hout hshut hflight ⟨[], hstack⟩
  cases foreignSteps_of_foreign hs with
  | incrInFlight | decrInFlight => exact absurd hf (by simp [Label.inFlightDelta])
  | _ => exact hsame rfl rfl rfl rfl rfl

def World.addInFlight (w : World) (n : Int) : World :=
  { w with conn := { w.conn with inFlight := w.conn.inFlight + n } }

theorem finishing_addInFlight (w : World) (n : Int) :
    Finishing (w.addInFlight n) ↔ (Stalled w → w.conn.inFlight + n ≠ 0) :=
  ⟨fun h hs => h ⟨hs.1, hs.2, hs.3, hs.4⟩, fun h hs => h ⟨hs.1, hs.2, hs.3, hs.4⟩⟩

/-- A step that changes the requests in flight does nothing else. -/
theorem step_addInFlight {w w' : World} {l : Label} {es : List Event} (hl : l.inFlightDelta ≠ 0)
    (hs : w.step crc l = some (w', es)) : w' = w.addInFlight l.inFlightDelta := by
  unfold Label.inFlightDelta at hl ⊢
  cases acts_of_step hs with
  | call c huser => cases c <;> first | rfl | exact absurd rfl hl
  | @foreign t f w' hforeign =>
    generalize w.senders t = sender at hforeign
    cases foreignSteps_of_foreign hforeign with
    | incrInFlight | decrInFlight => rfl
    | _ => exact absurd rfl hl
  | _ => exact absurd rfl hl

theorem call_finishing {w : World} (h : Finishing w) {c : Call}
    (hc : (Label.call c).inFlightDelta = 0) : Finishing (w.call crc c).1 := by
  cases c with
  | send message =>
    cases message with
    | none => exact h
    | some message =>
      simp only [World.call]
      split
      · exact h
      · exact (sendInLoopBatch_beside w [message]).finishing h
  | shutdown => exact shutdownInLoop_finishing w
  | connectEstablished => exact (connectEstablished_beside w).finishing h
  | connectInProgress cb => exact (connectInProgress_beside w cb).finishing h
  | connectDestroyed => exact (close_beside w .destroyed).finishing h
  | incrInFlight | decrInFlight => exact absurd hc (by simp [Label.inFlightDelta])
  | setDirectOutputFlush enabled =>
    have hbeside : Beside w (w.call crc (.setDirectOutputFlush enabled)).1 :=
      beside_of_same rfl rfl rfl rfl ⟨[], rfl⟩
    exact hbeside.finishing h

theorem runTask_finishing {w : World} (h : Finishing w) (task : Task) :
    Finishing (w.runTask task) := by
  cases task with
  | drain => exact (beside_push w _).finishing h
  | flush =>
    have hreset : Beside w { w with conn := { w.conn with flushQueued := false } } :=
      beside_of_same rfl rfl rfl rfl ⟨[], rfl⟩
    exact (hreset.trans (handleWrite_beside _)).finishing h
  | shutdown => exact shutdownInLoop_finishing w

/-- A step keeps that a stalled close waits, if and only if it meets the condition. -/
theorem step_finishing_iff {w w' : World} {l : Label} {es : List Event} (h : Finishing w)
    (hs : w.step crc l = some (w', es)) : Finishing w' ↔ Rechecked w l := by
  by_cases hl : l.inFlightDelta = 0
  case neg =>
    rw [step_addInFlight hl hs, finishing_addInFlight]
    exact ⟨fun h _ => h, fun h => h hl⟩
  refine iff_of_true ?_ fun hne => absurd hl hne
  cases acts_of_step hs with
  | read hstack hcb hread => exact (handleRead_beside hread).finishing h
  | unread | unwritten | unfailed => exact h
  | write soError hstack hcb => exact (handleWrite_beside w).finishing h
  | finishWrite soError hstack hcb => exact (finish_beside w _ soError).finishing h
  | fail soError hstack hcb => exact (handleClose_beside w .fdError).finishing h
  | finishError soError hstack hcb => exact (finish_beside w _ soError).finishing h
  | @task task tasks hstack htasks =>
    have htaken : Finishing { w with tasks } := fun hst => h ⟨hst.1, hst.2, hst.3, hst.4⟩
    exact runTask_finishing htaken task
  | call c huser => exact call_finishing h hl
  | @returns stack hstack =>
    intro hst
    exact h ⟨hst.1, hst.2, hst.3, by simpa [hstack] using hst.4⟩
  | resume hstack hresume => exact resume_finishing h hstack hresume
  | foreign hforeign => exact (foreign_beside hl hforeign).finishing h

/-! ## Main result -/

/-- In every run whose steps meet the condition, a connection that is half closed, has nothing
    to write and nothing in flight, and has no function or task of its own left, has shut its
    write side down; and the condition is what each further step needs to keep this. -/
theorem half_close_finishes (crc : Bytes → UInt32) (callbacks : Callbacks) (highWaterMark : Nat)
    (ls : List Label) (w : World) (tr : List Event)
    (hok : RunOk (World.step crc) Rechecked (World.new callbacks highWaterMark) ls)
    (hrun : run (World.step crc) (World.new callbacks highWaterMark) ls = some (w, tr)) :
    (w.conn.state = .halfClosing → w.conn.outBuffer.readAble = 0 → w.conn.inFlight = 0 →
        w.stack = [] → w.tasks = [] → w.conn.writeShut = true) ∧
      ∀ l w' es, w.step crc l = some (w', es) → (Finishing w' ↔ Rechecked w l) := by
  have h : Finishing w := runOk_induction (fun v _ => Finishing v)
    (fun _ _ _ _ _ hv hok hs => (step_finishing_iff hv hs).mpr hok) []
    (fun hst => absurd hst.state (by simp [World.new])) hok hrun
  refine ⟨fun hstate hwritten hflight hstack _ => ?_, fun l w' es hs => step_finishing_iff h hs⟩
  rw [← Bool.not_eq_false]
  intro hnot
  exact h ⟨hstate, hwritten, hnot, by simp [hstack]⟩ hflight

/-- The response to one request is written and the connection shut down while a second request
    is in flight. -/
def shutInFlight : List Label :=
  [.call .connectEstablished, .call .incrInFlight, .call .incrInFlight, .call .decrInFlight,
    .call (.send (some (.tinyPB { msgId := [49] }))), .resume [] false, .call .shutdown]

/-- Both requests are done before the flush ends: the flush closes the connection. -/
theorem half_close_finishes_flushed :
    ∃ w tr, run (World.step fun _ => 0) (World.new ⟨true, false, true, false, false⟩ 0)
        (shutInFlight ++ [.call .decrInFlight, .task, .resume [.ok 27] false]) = some (w, tr) ∧
      w.conn.state = .closed ∧
      (w.conn.state = .halfClosing → w.conn.outBuffer.readAble = 0 → w.conn.inFlight = 0 →
        w.stack = [] → w.tasks = [] → w.conn.writeShut = true) := by
  have hok : RunOk (World.step fun _ => 0) Rechecked (World.new ⟨true, false, true, false, false⟩ 0)
      (shutInFlight ++ [.call .decrInFlight, .task, .resume [.ok 27] false]) := by
    decide +kernel
  have hrun : (run (World.step fun _ => 0) (World.new ⟨true, false, true, false, false⟩ 0)
      (shutInFlight ++ [.call .decrInFlight, .task, .resume [.ok 27] false])).map
        (fun r => decide (r.1.conn.state = .closed)) = some true := by decide +kernel
  obtain ⟨⟨w, tr⟩, hw, hclosed⟩ := Option.map_eq_some_iff.mp hrun
  exact ⟨w, tr, hw, of_decide_eq_true hclosed,
    (half_close_finishes _ _ _ _ w tr hok hw).1⟩

/-- The second request is done behind the flush: its closure takes the count to zero and its
    response is turned away. The connection stays half closed, with its write side open. -/
theorem half_close_stalls :
    ∃ w tr, run (World.step fun _ => 0) (World.new ⟨true, false, true, false, false⟩ 0)
        (shutInFlight ++ [.task, .resume [.ok 27] false, .call .decrInFlight,
          .call (.send (some (.tinyPB { msgId := [50] })))]) = some (w, tr) ∧
      w.conn.state = .halfClosing ∧ w.conn.outBuffer.readAble = 0 ∧ w.conn.inFlight = 0 ∧
      w.stack = [] ∧ w.tasks = [] ∧ w.conn.writeShut = false := by
  have hrun : (run (World.step fun _ => 0) (World.new ⟨true, false, true, false, false⟩ 0)
      (shutInFlight ++ [.task, .resume [.ok 27] false, .call .decrInFlight,
        .call (.send (some (.tinyPB { msgId := [50] })))])).map
        (fun r => decide (r.1.conn.state = .halfClosing ∧ r.1.conn.outBuffer.readAble = 0 ∧
          r.1.conn.inFlight = 0 ∧ r.1.stack = [] ∧ r.1.tasks = [] ∧
          r.1.conn.writeShut = false)) = some true := by decide +kernel
  obtain ⟨⟨w, tr⟩, hw, heq⟩ := Option.map_eq_some_iff.mp hrun
  exact ⟨w, tr, hw, of_decide_eq_true heq⟩

end RocketRpc.Net
