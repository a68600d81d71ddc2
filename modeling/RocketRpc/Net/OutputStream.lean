import RocketRpc.Lib.Machine
import RocketRpc.Net.ConnectionSteps

/-
  The output stream of a connection.

  What the kernel has accepted, followed by what is readable in the output buffer, is what
  was encoded: `Ledger` holds along every run as long as the connection is not closed
  (`step_ledger`), whichever of the three flush paths is taken and however the kernel
  answers. `output_stream_integrity` is the result for whole runs.
-/

namespace RocketRpc.Net

open RocketRpc.Tcp RocketRpc.Coder Machine

variable {crc : Bytes → UInt32}

def Event.acceptedBytes : Event → Bytes
  | .accepted bytes => bytes
  | _ => []

def Event.encodedMessages : Event → List AbstractProtocol
  | .encoded messages => messages
  | _ => []

/-- The bytes that the kernel accepted in a run. -/
def acceptedBytes (es : List Event) : Bytes := es.flatMap Event.acceptedBytes

/-- The messages that were encoded in a run, as they travel. -/
def encodedMessages (es : List Event) : List AbstractProtocol := es.flatMap Event.encodedMessages

theorem acceptedBytes_append (es fs : List Event) :
    acceptedBytes (es ++ fs) = acceptedBytes es ++ acceptedBytes fs := List.flatMap_append

theorem encodedMessages_append (es fs : List Event) :
    encodedMessages (es ++ fs) = encodedMessages es ++ encodedMessages fs := List.flatMap_append

theorem acceptedBytes_singleton (e : Event) : acceptedBytes [e] = e.acceptedBytes :=
  List.flatMap_singleton _ _

theorem encodedMessages_singleton (e : Event) :
    encodedMessages [e] = e.encodedMessages := List.flatMap_singleton _ _

theorem frames_append (ms ns : List AbstractProtocol) :
    frames (ms ++ ns) = frames ms ++ frames ns := by
  induction ms with
  | nil => rfl
  | cons m ms ih =>
    cases m with
    | other => exact ih
    | tinyPB m => rw [List.cons_append, frames, frames, ih, List.append_assoc]

/-- The events that are not of the output stream do not count for it. -/
theorem output_nil {es : List Event}
    (h : ∀ e ∈ es, e.isQuiet = true ∨ ∃ messages, e = .delivered messages) :
    acceptedBytes es = [] ∧ encodedMessages es = [] := by
  have hnone : ∀ e ∈ es, e.acceptedBytes = [] ∧ e.encodedMessages = [] := by
    intro e he
    rcases h e he with hq | ⟨messages, rfl⟩
    · cases e with
      | closed why => exact ⟨rfl, rfl⟩
      | called callback => exact ⟨rfl, rfl⟩
      | _ => exact absurd hq (by simp [Event.isQuiet])
    · exact ⟨rfl, rfl⟩
  exact ⟨List.flatMap_eq_nil_iff.mpr fun e he => (hnone e he).1,
    List.flatMap_eq_nil_iff.mpr fun e he => (hnone e he).2⟩

/-- Accepted and buffered bytes together are the frames that were encoded. -/
def Ledger (c : TcpConnection) (tr : List Event) : Prop :=
  c.state ≠ .closed →
    acceptedBytes tr ++ c.outBuffer.readable = frames (encodedMessages tr)

theorem Quiet.ledger {c c' : TcpConnection} {tr es : List Event} (hq : Quiet c c' es)
    (h : Ledger c tr) : Ledger c' (tr ++ es) := by
  intro hopen
  obtain ⟨hacc, henc⟩ := output_nil fun e he => Or.inl (hq.silent e he)
  rw [acceptedBytes_append, encodedMessages_append, hacc, henc, List.append_nil,
    List.append_nil, hq.outBuffer]
  exact h fun hc => hopen (hq.closed hc)

theorem effect_ledger {c c' : TcpConnection} {tr es : List Event} (he : Effect crc c c' es)
    (h : Ledger c tr) : Ledger c' (tr ++ es) := by
  cases he with
  | quiet hq => exact hq.ledger h
  | encoded hok hq =>
    rename_i messages es
    rw [List.append_cons]
    refine hq.ledger fun hopen => ?_
    obtain ⟨hmessages, hbytes⟩ := encode_ok hok
    rw [acceptedBytes_append, encodedMessages_append, acceptedBytes_singleton,
      encodedMessages_singleton]
    simp only [Event.acceptedBytes, Event.encodedMessages, List.append_nil]
    rw [frames_append, ← h hopen, hbytes, hmessages, List.append_assoc]
  | refused hok hq hclosed => exact fun hopen => absurd hclosed hopen
  | flushed hflush hq =>
    rename_i results ended out bytes es
    rw [List.append_cons]
    refine hq.ledger fun hopen => ?_
    rw [acceptedBytes_append, encodedMessages_append, acceptedBytes_singleton,
      encodedMessages_singleton]
    simp only [Event.acceptedBytes, Event.encodedMessages, List.append_nil]
    rw [List.append_assoc, flushLoop_spec hflush]
    exact h hopen

theorem step_ledger {w w' : World} {l : Label} {tr es : List Event} (h : Ledger w.conn tr)
    (hstep : w.step crc l = some (w', es)) : Ledger w'.conn (tr ++ es) := by
  rcases step_cases hstep with ⟨results, -, -, hread⟩ | ⟨-, heffect⟩
  · have hin := handleRead_inputOnly hread
    intro hopen
    obtain ⟨hacc, henc⟩ := output_nil hin.silent
    rw [acceptedBytes_append, encodedMessages_append, hacc, henc, List.append_nil,
      List.append_nil, hin.outBuffer]
    exact h fun hc => hopen (hin.closed hc)
  · exact effect_ledger heffect h

/-- A run that begins with nothing in the output buffer. -/
theorem run_ledger {w₀ w : World} {ls : List Label} {es : List Event}
    (h₀ : w₀.conn.outBuffer.readable = []) (hrun : run (World.step crc) w₀ ls = some (w, es)) :
    Ledger w.conn es := by
  have hinit : Ledger w₀.conn [] := fun _ => h₀
  exact run_induction (fun v tr => Ledger v.conn tr)
    (fun _ _ _ _ _ h hstep => step_ledger h hstep) [] hinit hrun

/-- While the connection is not closed, the bytes that the kernel has accepted and then the
    readable bytes of the output buffer are the frames of all messages that were encoded, in
    that order. So two runs that encode the same messages put the same bytes on the wire,
    whether they flush directly or not. -/
theorem output_stream_integrity (crc : Bytes → UInt32) (w₀ w : World) (ls : List Label)
    (es : List Event) (h₀ : w₀.conn.outBuffer.readable = [])
    (hrun : run (World.step crc) w₀ ls = some (w, es)) (hopen : w.conn.state ≠ .closed) :
    acceptedBytes es ++ w.conn.outBuffer.readable = frames (encodedMessages es) ∧
      ∀ w₀' w' ls' es', w₀'.conn.outBuffer.readable = [] →
        run (World.step crc) w₀' ls' = some (w', es') → w'.conn.state ≠ .closed →
        encodedMessages es' = encodedMessages es →
        acceptedBytes es' ++ w'.conn.outBuffer.readable =
          acceptedBytes es ++ w.conn.outBuffer.readable := by
  have hledger := run_ledger h₀ hrun hopen
  refine ⟨hledger, ?_⟩
  intro w₀' w' ls' es' h₀' hrun' hopen' hsame
  rw [hledger, ← hsame]
  exact run_ledger h₀' hrun' hopen'

/-- A message is sent, and the kernel takes three of its bytes. -/
theorem output_stream_integrity_partial_write :
    ∃ w es, run (World.step fun _ => 0) { conn := { callbacks := ⟨true, true, true, true, true⟩ } }
        [.call .connectEstablished, .returns, .call (.send (some (.tinyPB { msgId := [49] }))),
          .resume [] false, .task, .resume [.ok 3, .error .EAGAIN] false] = some (w, es) ∧
      (acceptedBytes es).length = 3 ∧
      acceptedBytes es ++ w.conn.outBuffer.readable = frames (encodedMessages es) := by
  have hrun : (run (World.step fun _ => 0)
      { conn := { callbacks := ⟨true, true, true, true, true⟩ } }
      [.call .connectEstablished, .returns, .call (.send (some (.tinyPB { msgId := [49] }))),
        .resume [] false, .task, .resume [.ok 3, .error .EAGAIN] false]).map
      (fun r => ((acceptedBytes r.2).length, decide (r.1.conn.state ≠ .closed))) =
      some (3, true) := by
    decide +kernel
  obtain ⟨⟨w, es⟩, hw, heq⟩ := Option.map_eq_some_iff.mp hrun
  obtain ⟨hlen, hopen⟩ : (acceptedBytes es).length = 3 ∧ w.conn.state ≠ .closed := by
    simpa using heq
  obtain ⟨hledger, -⟩ :=
    output_stream_integrity (fun _ => 0) _ w _ es (TcpBuffer.readable_new _) hw hopen
  exact ⟨w, es, hw, hlen, hledger⟩

end RocketRpc.Net
