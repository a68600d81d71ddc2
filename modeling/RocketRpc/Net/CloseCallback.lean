import RocketRpc.Net.ConnectionSteps
import Mathlib.Data.List.Count

/-
  The close callback of a connection.

  Only `handleClose` calls it, once a step at most, and only where the connection was not yet
  closed; the loop is in the callback then. Each function of the connection has one lemma
  (`…_closes`), and `step_closes` puts them together.
-/

namespace RocketRpc.Net

open RocketRpc.Tcp RocketRpc.Coder

variable {crc : Bytes → UInt32} {w w' : World} {es : List Event}

/-- What a step has to do with the close callback. -/
structure Closes (w w' : World) (es : List Event) : Prop where
  once : es.count (.called .close) ≤ 1
  closes : .called .close ∈ es →
    w.conn.state ≠ .closed ∧ w'.conn.state = .closed ∧ ∃ stack, w'.stack = .user :: stack

theorem closes_of_not_mem (h : .called .close ∉ es) : Closes w w' es :=
  ⟨by simp [List.count_eq_zero_of_not_mem h], fun hmem => absurd hmem h⟩

theorem closes_nil : Closes w w' [] := closes_of_not_mem List.not_mem_nil

/-- What comes before the last function of a step leaves the state alone and calls nothing. -/
theorem Closes.after {w₀ : World} {es₀ : List Event} (h : Closes w w' es)
    (hstate : w.conn.state = w₀.conn.state) (h₀ : .called .close ∉ es₀) :
    Closes w₀ w' (es₀ ++ es) := by
  refine ⟨?_, fun hmem => ?_⟩
  · rw [List.count_append, List.count_eq_zero_of_not_mem h₀, Nat.zero_add]
    exact h.once
  · obtain ⟨hopen, hclosed⟩ := h.closes ((List.mem_append.mp hmem).resolve_left h₀)
    exact ⟨hstate ▸ hopen, hclosed⟩

theorem Closes.of_state {w₀ : World} (h : Closes w w' es)
    (hstate : w.conn.state = w₀.conn.state) : Closes w₀ w' es :=
  h.after hstate List.not_mem_nil

theorem close_silent (w : World) (why : Why) : .called .close ∉ (w.close why).2 := by
  unfold World.close
  split <;> simp

theorem handleClose_callback (w : World) (why : Why) :
    Closes w (w.handleClose why).1 (w.handleClose why).2 := by
  unfold World.handleClose
  split
  · exact closes_nil
  rename_i hopen
  split
  · refine ⟨?_, fun _ => ⟨hopen, rfl, w.stack, rfl⟩⟩
    simp only [World.andThen, List.count_append,
      List.count_eq_zero_of_not_mem (close_silent w why)]
    simp
  · exact closes_of_not_mem (close_silent w why)

theorem disableWriting_state (w : World) : w.disableWriting.conn.state = w.conn.state := by
  unfold World.disableWriting
  split <;> rfl

theorem enableWriting_state (w : World) : w.enableWriting.conn.state = w.conn.state := by
  unfold World.enableWriting
  split <;> rfl

theorem writeCompleted_closes (w : World) (allWritten : Bool) :
    Closes w (w.writeCompleted allWritten).1 (w.writeCompleted allWritten).2 := by
  unfold World.writeCompleted
  split
  · exact (handleClose_callback _ .drained).of_state (recoverMark_state w)
  · exact closes_nil

theorem updateWriteInterest_closes (w : World) (allWritten : Bool) :
    Closes w (w.updateWriteInterest allWritten).1 (w.updateWriteInterest allWritten).2 := by
  unfold World.updateWriteInterest
  split
  · split
    · exact closes_of_not_mem (by simp)
    · exact (writeCompleted_closes _ true).of_state (disableWriting_state w)
  · exact (writeCompleted_closes _ false).of_state (enableWriting_state w)

theorem flush_closes {results : List (Except Errno Nat)}
    (h : w.flush results = some (w', es)) : Closes w w' es := by
  obtain ⟨⟨ended, out, bytes⟩, -, heq⟩ := Option.map_eq_some_iff.mp h
  obtain ⟨rfl, rfl⟩ := Prod.mk.inj heq
  cases ended with
  | failed e =>
    exact (handleClose_callback (w.setOutBuffer out) (.writeError e)).after rfl (by simp)
  | stopped =>
    dsimp only
    split
    · exact closes_of_not_mem (by simp)
    · exact (updateWriteInterest_closes (w.setOutBuffer out) _).after rfl (by simp)

theorem sendInLoopBatch_closes (w : World) (messages : List AbstractProtocol) :
    Closes w (w.sendInLoopBatch crc messages).1 (w.sendInLoopBatch crc messages).2 := by
  unfold World.sendInLoopBatch
  split
  · exact closes_nil
  split
  · exact closes_nil
  dsimp only
  split
  · exact (handleClose_callback _ .encode).of_state rfl
  split
  · split <;> exact closes_of_not_mem (by simp)
  · exact closes_of_not_mem (by simp)

theorem decodeInput_closes (w : World) :
    Closes w (w.decodeInput crc).1 (w.decodeInput crc).2 := by
  unfold World.decodeInput
  dsimp only
  split
  · exact (handleClose_callback _ .decode).of_state rfl
  split
  · split <;> exact closes_of_not_mem (by simp)
  · exact closes_nil

theorem handleRead_closes {results : List (Except Errno Bytes)}
    (h : w.handleRead crc results = some (w', es)) : Closes w w' es := by
  unfold World.handleRead at h
  split at h
  · obtain ⟨rfl, rfl⟩ := Prod.mk.inj (Option.some.inj h)
    exact closes_nil
  obtain ⟨⟨ended, b⟩, -, heq⟩ := Option.map_eq_some_iff.mp h
  cases ended with
  | drained =>
    obtain ⟨rfl, rfl⟩ := Prod.mk.inj heq
    exact (decodeInput_closes (w.setInBuffer b)).of_state rfl
  | closed =>
    obtain ⟨rfl, rfl⟩ := Prod.mk.inj heq
    exact (handleClose_callback (w.setInBuffer b) .eof).of_state rfl
  | failed e =>
    obtain ⟨rfl, rfl⟩ := Prod.mk.inj heq
    exact (handleClose_callback (w.setInBuffer b) (.readError e)).of_state rfl

theorem connectEstablished_silent (w : World) : .called .close ∉ w.connectEstablished.2 := by
  unfold World.connectEstablished
  split
  · simp
  · dsimp only
    split <;> simp

theorem connectCallback_silent (w : World) (cb : Bool) (errorCode : Nat) :
    .called .close ∉ (w.connectCallback cb errorCode).2 := by
  unfold World.connectCallback
  split <;> simp

theorem connectInProgress_silent (w : World) (cb : Bool) :
    .called .close ∉ (w.connectInProgress cb).2 := by
  unfold World.connectInProgress
  split
  · exact connectCallback_silent w cb EISCONN
  · simp

theorem finish_silent (w : World) (cb : Bool) (soError : Nat) :
    .called .close ∉ (w.finish cb soError).2 := by
  unfold World.finish
  split
  · simp only [World.andThen, List.mem_append, not_or]
    exact ⟨close_silent _ _, connectCallback_silent _ cb soError⟩
  · exact connectEstablished_silent _

theorem drain_closes (w : World) (round batch : Nat) (messages : List AbstractProtocol)
    (sees : Bool) : Closes w (w.drain crc round batch messages sees).1
      (w.drain crc round batch messages sees).2 := by
  unfold World.drain
  split
  · exact closes_nil
  split
  · exact closes_nil
  · exact (sendInLoopBatch_closes _ messages).of_state rfl

theorem call_closes (w : World) (c : Call) : Closes w (w.call crc c).1 (w.call crc c).2 := by
  cases c with
  | send message =>
    cases message with
    | none => exact closes_nil
    | some message =>
      simp only [World.call]
      split
      · exact closes_nil
      · exact sendInLoopBatch_closes w [message]
  | connectEstablished => exact closes_of_not_mem (connectEstablished_silent w)
  | connectInProgress cb => exact closes_of_not_mem (connectInProgress_silent w cb)
  | connectDestroyed => exact closes_of_not_mem (close_silent w .destroyed)
  | shutdown | incrInFlight | decrInFlight | setDirectOutputFlush enabled => exact closes_nil

theorem resume_closes {results : List (Except Errno Nat)} {sees : Bool} {frame : Frame}
    (h : w.resume crc results sees frame = some (w', es)) : Closes w w' es := by
  cases frame with
  | user => exact nomatch h
  | flush => exact flush_closes h
  | writeCompleted =>
    obtain ⟨rfl, rfl⟩ := Prod.mk.inj (Option.some.inj h)
    exact writeCompleted_closes w true
  | drain round batch messages =>
    obtain ⟨rfl, rfl⟩ := Prod.mk.inj (Option.some.inj h)
    exact drain_closes w round batch messages sees
  | connectDone cb =>
    obtain ⟨rfl, rfl⟩ := Prod.mk.inj (Option.some.inj h)
    exact closes_of_not_mem (connectCallback_silent w cb 0)
  | sendFlush | restoreDefer previous | drainCheck | drainArm | drainQueue =>
    obtain ⟨rfl, rfl⟩ := Prod.mk.inj (Option.some.inj h)
    exact closes_nil

/-- A step calls the close callback at most once, and only when it closes the connection. -/
theorem step_closes {l : Label} (h : w.step crc l = some (w', es)) : Closes w w' es := by
  cases acts_of_step h with
  | read hstack hcb hread => exact handleRead_closes hread
  | unread | write | unwritten | unfailed | task | returns | foreign => exact closes_nil
  | finishWrite soError | finishError soError =>
    exact closes_of_not_mem (finish_silent w _ soError)
  | fail soError hstack hcb => exact handleClose_callback w .fdError
  | call c huser => exact call_closes w c
  | resume hstack hresume => exact (resume_closes hresume).of_state rfl

end RocketRpc.Net
