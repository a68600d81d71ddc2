import RocketRpc.Lib.Framing
import RocketRpc.Net.CloseReasons
import RocketRpc.Net.HighWaterMark
import RocketRpc.Net.OutputStream

/-
  The two streams at one end of a connection.

  What a connection has written is whole frames, and those of the messages that were encoded unless
  a batch was refused (`Written`). What it has handed to the message callback are the messages of a
  first part of what it has read, and of all of it while the connection is not closed (`Decoded`).
  Both hold along every run, whatever the other end does.
-/

namespace RocketRpc.Net

open RocketRpc.Tcp RocketRpc.Coder StreamScan TinyPBProtocol

variable {crc : Bytes → UInt32}

/-! ## Writing -/

/-- The well-formed messages `ns` are all that was written or is to be written. -/
structure Written (crc : Bytes → UInt32) (c : TcpConnection) (tr : List Event)
    (ns : List TinyPBProtocol) : Prop where
  wellFormed : ∀ n ∈ ns, n.WellFormed crc
  bytes : acceptedBytes tr ++ c.outBuffer.readable = ns.flatMap frame
  encoded : .encode ∉ closings tr → ns = tinyPBs (encodedMessages tr)

/-- What a step adds to that. -/
structure Writes (crc : Bytes → UInt32) (c c' : TcpConnection) (es : List Event)
    (ns : List TinyPBProtocol) : Prop where
  wellFormed : ∀ n ∈ ns, n.WellFormed crc
  bytes : acceptedBytes es ++ c'.outBuffer.readable = c.outBuffer.readable ++ ns.flatMap frame
  encoded : .encode ∉ closings es → ns = tinyPBs (encodedMessages es)

theorem tinyPBs_append (ms ns : List AbstractProtocol) :
    tinyPBs (ms ++ ns) = tinyPBs ms ++ tinyPBs ns := List.filterMap_append

theorem Written.writes {c c' : TcpConnection} {tr es : List Event} {ms ns : List TinyPBProtocol}
    (h : Written crc c tr ms) (hs : Writes crc c c' es ns) :
    Written crc c' (tr ++ es) (ms ++ ns) where
  wellFormed n hn := (List.mem_append.mp hn).elim (h.wellFormed n) (hs.wellFormed n)
  bytes := by
    rw [acceptedBytes_append, List.append_assoc, hs.bytes, ← List.append_assoc, h.bytes,
      List.flatMap_append]
  encoded hno := by
    rw [closings_append, List.mem_append, not_or] at hno
    rw [encodedMessages_append, tinyPBs_append, h.encoded hno.1, hs.encoded hno.2]

/-- A step that leaves the output alone. -/
theorem writes_nothing {c c' : TcpConnection} {es : List Event} (hout : c'.outBuffer = c.outBuffer)
    (hes : ∀ e ∈ es, e.isQuiet = true ∨ ∃ messages, e = .delivered messages) :
    Writes crc c c' es [] := by
  obtain ⟨haccepted, hencoded⟩ := output_nil hes
  refine ⟨by simp, ?_, fun _ => ?_⟩
  · rw [haccepted, hout, List.flatMap_nil, List.append_nil, List.nil_append]
  · rw [hencoded]
    rfl

theorem Quiet.writes {c c' : TcpConnection} {es : List Event} (h : Quiet c c' es) :
    Writes crc c c' es [] := writes_nothing h.outBuffer fun e he => Or.inl (h.silent e he)

theorem flush_writes {w w' : World} {results : List (Except Errno Nat)} {es : List Event}
    (h : w.flush results = some (w', es)) : Writes crc w.conn w'.conn es [] := by
  have hquiet : ∀ out bytes fs, bytes ++ out.readable = w.conn.outBuffer.readable →
      Quiet (w.setOutBuffer out).conn w'.conn fs →
      Writes crc w.conn w'.conn (.accepted bytes :: fs) [] := by
    intro out bytes fs hbytes hq
    have hrest : Writes crc (w.setOutBuffer out).conn w'.conn fs [] := hq.writes
    refine ⟨by simp, ?_, fun hno => hrest.encoded hno⟩
    have hmore := hrest.bytes
    rw [List.flatMap_nil, List.append_nil] at hmore ⊢
    rw [acceptedBytes, List.flatMap_cons, ← acceptedBytes, List.append_assoc, hmore]
    exact hbytes
  obtain ⟨⟨ended, out, bytes⟩, hflush, heq⟩ := Option.map_eq_some_iff.mp h
  have hbytes := flushLoop_spec hflush
  cases ended with
  | failed e =>
    obtain ⟨rfl, rfl⟩ := Prod.mk.inj heq
    exact hquiet out bytes _ hbytes
      (handleClose_quiet (w.setOutBuffer out) (.writeError e) (by simp))
  | stopped =>
    obtain ⟨rfl, rfl⟩ := Prod.mk.inj heq
    refine hquiet out bytes _ hbytes ?_
    dsimp only
    split
    · exact .refl _
    · exact updateWriteInterest_quiet (w.setOutBuffer out) _

theorem sendInLoopBatch_writes (w : World) (messages : List AbstractProtocol) :
    ∃ ns, Writes crc w.conn (w.sendInLoopBatch crc messages).1.conn
      (w.sendInLoopBatch crc messages).2 ns := by
  unfold World.sendInLoopBatch
  split
  · exact ⟨[], (Quiet.refl _).writes⟩
  rename_i hrej
  split
  · exact ⟨[], (Quiet.refl _).writes⟩
  obtain ⟨ns, hns, hbytes, htiny⟩ := encode_appends crc messages w.conn.outBuffer
  refine ⟨ns, ?_⟩
  dsimp only
  split
  · have hopen : (w.setOutBuffer (encode crc messages w.conn.outBuffer).2.2).conn.state ≠ .closed :=
      fun hclosed => hrej (rejects_of_closed hclosed)
    have hquiet := handleClose_quiet (w.setOutBuffer (encode crc messages w.conn.outBuffer).2.2)
      .encode (by simp)
    obtain ⟨haccepted, -⟩ := output_nil fun e he => Or.inl (hquiet.silent e he)
    refine ⟨hns, ?_, fun hno => absurd (handleClose_closes .encode hopen) hno⟩
    rw [haccepted, hquiet.outBuffer]
    exact hbytes
  · rename_i hok
    have hsaid := htiny (by simpa using hok)
    have hencoded : ∀ fs, encodedMessages fs = [] → ns = tinyPBs (encodedMessages
        (.encoded (encode crc messages w.conn.outBuffer).2.1 :: fs)) := by
      intro fs hfs
      rw [encodedMessages, List.flatMap_cons, ← encodedMessages, hfs, List.append_nil]
      exact hsaid.symm
    split
    · split <;> exact ⟨hns, hbytes, fun _ => hencoded _ rfl⟩
    · exact ⟨hns, hbytes, fun _ => hencoded _ rfl⟩

theorem step_writes {w w' : World} {l : Label} {es : List Event}
    (h : w.step crc l = some (w', es)) : ∃ ns, Writes crc w.conn w'.conn es ns := by
  rcases step_does h with ⟨results, -, -, hread⟩ | ⟨-, hdoes⟩
  · have hin := handleRead_inputOnly hread
    exact ⟨[], writes_nothing hin.outBuffer hin.silent⟩
  cases hdoes with
  | @sends v messages hv hsend =>
    have hwrites := @sendInLoopBatch_writes crc v messages
    rwa [hsend, hv] at hwrites
  | flushes hv hflush => exact ⟨[], hv ▸ flush_writes hflush⟩
  | calm hquiet hshuts => exact ⟨[], hquiet.writes⟩

theorem step_written {w w' : World} {l : Label} {tr es : List Event}
    (h : ∃ ns, Written crc w.conn tr ns) (hs : w.step crc l = some (w', es)) :
    ∃ ns, Written crc w'.conn (tr ++ es) ns := by
  obtain ⟨ms, hms⟩ := h
  obtain ⟨ns, hns⟩ := step_writes hs
  exact ⟨ms ++ ns, hms.writes hns⟩

theorem written_new {c : TcpConnection} (h : c.outBuffer.readable = []) :
    Written crc c [] [] := ⟨by simp, h, fun _ => rfl⟩

/-! ## Reading -/

/-- The step is a round of `handleRead` that reads. -/
def World.reads (w : World) : Bool := w.conn.fdEvent.readCallback && w.conn.isOpen

/-- What a step takes off the wire. -/
def World.takes (w : World) : Label → Bytes
  | .readable results => if w.reads then dataOf results else []
  | _ => []

/-- A `readv` call of the step returns 0. -/
def World.seesEnd (w : World) : Label → Bool
  | .readable results => w.reads && results.contains (.ok [])
  | _ => false

/-- What the callback was given, of a connection that has read `taken`. -/
structure Decoded (crc : Bytes → UInt32) (c : TcpConnection) (tr : List Event) (taken : Bytes) :
    Prop where
  message : c.callbacks.message = true
  part : ∃ part, part <+: taken ∧ (scan (frameDecoder crc) part).rejected = none ∧
    deliveredMessages tr = (scan (frameDecoder crc) part).messages
  current : c.state ≠ .closed → (scan (frameDecoder crc) taken).rejected = none ∧
    deliveredMessages tr = (scan (frameDecoder crc) taken).messages ∧
    c.inBuffer.readable = (scan (frameDecoder crc) taken).residue
  malformed : .decode ∈ closings tr → (scan (frameDecoder crc) taken).rejected.isSome = true

theorem decoded_new {c : TcpConnection} (hmessage : c.callbacks.message = true)
    (h : c.inBuffer.readable = []) : Decoded crc c [] [] := by
  have hscan := scan_wait (verdict_nil (frameDecoder crc))
  refine ⟨hmessage, ⟨[], List.prefix_rfl, ?_, ?_⟩, fun _ => ⟨?_, ?_, ?_⟩, fun hmem => ?_⟩
  · rw [hscan]
  · rw [hscan]
    rfl
  · rw [hscan]
  · rw [hscan]
    rfl
  · rw [hscan]
    exact h
  · exact absurd hmem List.not_mem_nil

/-- A round that has `xs` to decode closes the connection and hands over nothing, or hands over all
    messages of `xs` and keeps what the scan leaves. -/
inductive Decodes (crc : Bytes → UInt32) (c' : TcpConnection) (es : List Event) (xs : Bytes) :
    Prop where
  | closed (hlost : deliveredMessages es = []) (hclosed : c'.state = .closed)
      (hwhy : .decode ∈ closings es → (scan (frameDecoder crc) xs).rejected.isSome = true)
  | clean (hrejected : (scan (frameDecoder crc) xs).rejected = none)
      (hdelivered : deliveredMessages es = (scan (frameDecoder crc) xs).messages)
      (hrest : c'.inBuffer.readable = (scan (frameDecoder crc) xs).residue)
      (hopen : closings es = [])

theorem decodeInput_decodes {w : World} (hmessage : w.conn.callbacks.message = true) :
    Decodes crc (w.decodeInput crc).1.conn (w.decodeInput crc).2 w.conn.inBuffer.readable := by
  obtain ⟨hmessages, hfatal, hresidue⟩ := decode_spec crc w.conn.inBuffer
  have hone : ∀ messages, deliveredMessages [.delivered messages] = messages :=
    fun _ => List.flatMap_singleton _ _
  unfold World.decodeInput
  dsimp only
  split
  · rename_i hf
    exact .closed (handleClose_delivers _ _) (handleClose_closed _ _) fun _ => hfatal ▸ hf
  rename_i hf
  have hrejected : (scan (frameDecoder crc) w.conn.inBuffer.readable).rejected = none := by
    rw [hfatal] at hf
    simpa using hf
  split
  · split <;> exact .clean hrejected ((hone _).trans hmessages) hresidue rfl
  · rename_i hnone
    have hempty : (decode crc w.conn.inBuffer).1.messages = [] := by
      simpa [World.setInBuffer, hmessage] using hnone
    exact .clean hrejected (hempty.symm.trans hmessages) hresidue rfl

theorem handleRead_decodes {w w' : World} {results : List (Except Errno Bytes)} {es : List Event}
    (hopen : w.conn.isOpen = true) (hmessage : w.conn.callbacks.message = true)
    (h : w.handleRead crc results = some (w', es)) :
    w'.conn.callbacks = w.conn.callbacks ∧
      Decodes crc w'.conn es (w.conn.inBuffer.readable ++ dataOf results) := by
  have hcallbacks := (handleRead_level h).callbacks
  refine ⟨hcallbacks, ?_⟩
  unfold World.handleRead at h
  rw [if_neg (by simp [hopen])] at h
  obtain ⟨⟨ended, b⟩, hloop, heq⟩ := Option.map_eq_some_iff.mp h
  cases ended with
  | failed e =>
    obtain ⟨rfl, rfl⟩ := Prod.mk.inj heq
    exact .closed (handleClose_delivers _ _) (handleClose_closed _ _) fun hmem =>
      absurd ((handleClose_shuts (w.setInBuffer b) (.readError e)).why hmem) (by simp)
  | closed =>
    obtain ⟨rfl, rfl⟩ := Prod.mk.inj heq
    exact .closed (handleClose_delivers _ _) (handleClose_closed _ _) fun hmem =>
      absurd ((handleClose_shuts (w.setInBuffer b) .eof).why hmem) (by simp)
  | drained =>
    obtain ⟨rfl, rfl⟩ := Prod.mk.inj heq
    have hin : (w.setInBuffer b).conn.inBuffer.readable = _ :=
      readLoop_readable hloop (by simp)
    rw [← hin]
    exact decodeInput_decodes hmessage

theorem Does.outputOnly {w w' : World} {es : List Event} (h : Does crc w w' es) :
    OutputOnly w.conn w'.conn es := by
  cases h with
  | @sends v messages hv hsend =>
    have hout := (@sendInLoopBatch_effect crc v messages).outputOnly
    rwa [hsend, hv] at hout
  | @flushes v _ hv hflush =>
    have hout := (@flush_effect crc v _ _ _ hflush).outputOnly
    rwa [hv] at hout
  | calm hquiet hshuts => exact hquiet.outputOnly

/-- A round goes on with what the connection has read. -/
theorem Decoded.round {c c' : TcpConnection} {tr es : List Event} {taken data : Bytes}
    (h : Decoded crc c tr taken) (hopen : c.state ≠ .closed) (hcb : c'.callbacks = c.callbacks)
    (hround : Decodes crc c' es (c.inBuffer.readable ++ data)) :
    Decoded crc c' (tr ++ es) (taken ++ data) := by
  obtain ⟨hrejected, hdelivered, hresidue⟩ := h.current hopen
  obtain ⟨hmessages, hstill, hrest⟩ := scan_continues data hrejected
  rw [← hresidue] at hmessages hstill hrest
  have hmessage : c'.callbacks.message = true := hcb ▸ h.message
  have hmalformed : .decode ∉ closings tr := fun hmem => by
    simpa [hrejected] using h.malformed hmem
  cases hround with
  | closed hlost hclosed hwhy =>
    refine ⟨hmessage, ⟨taken, List.prefix_append _ _, hrejected, ?_⟩,
      fun hno => absurd hclosed hno, fun hmem => ?_⟩
    · rw [deliveredMessages_append, hlost, List.append_nil, hdelivered]
    · rw [closings_append] at hmem
      have hsome := hwhy ((List.mem_append.mp hmem).resolve_left hmalformed)
      rw [Option.isSome_iff_ne_none] at hsome ⊢
      exact mt hstill.mp hsome
  | clean hclean hgiven hleft hno =>
    have hall : deliveredMessages (tr ++ es) =
        (scan (frameDecoder crc) (taken ++ data)).messages := by
      rw [deliveredMessages_append, hdelivered, hgiven, hmessages]
    refine ⟨hmessage, ⟨taken ++ data, List.prefix_rfl, hstill.mpr hclean, hall⟩,
      fun _ => ⟨hstill.mpr hclean, hall, hleft.trans hrest.symm⟩, fun hmem => ?_⟩
    rw [closings_append, hno, List.append_nil] at hmem
    exact absurd hmem hmalformed

/-- A step that reads nothing. -/
theorem Decoded.aside {c c' : TcpConnection} {tr es : List Event} {taken : Bytes}
    (h : Decoded crc c tr taken) (hout : OutputOnly c c' es) (hwhy : .decode ∉ closings es) :
    Decoded crc c' (tr ++ es) taken := by
  have hdelivered : deliveredMessages (tr ++ es) = deliveredMessages tr := by
    rw [deliveredMessages_append, hout.silent, List.append_nil]
  refine ⟨hout.callbacks ▸ h.message, hdelivered.symm ▸ h.part, fun hopen => ?_, fun hmem => ?_⟩
  · rw [hdelivered, hout.inBuffer]
    exact h.current (mt hout.closed hopen)
  · rw [closings_append] at hmem
    exact h.malformed ((List.mem_append.mp hmem).resolve_right hwhy)

theorem step_decoded {w w' : World} {l : Label} {tr es : List Event} {taken : Bytes}
    (h : Decoded crc w.conn tr taken) (hs : w.step crc l = some (w', es)) :
    Decoded crc w'.conn (tr ++ es) (taken ++ w.takes l) := by
  rcases step_does hs with ⟨results, rfl, hcb, hread⟩ | ⟨hother, hdoes⟩
  · cases hopen : w.conn.isOpen with
    | true =>
      have htakes : w.takes (.readable results) = dataOf results := by
        simp [World.takes, World.reads, hcb, hopen]
      obtain ⟨hcallbacks, hround⟩ := handleRead_decodes hopen h.message hread
      rw [htakes]
      refine h.round (fun hclosed => ?_) hcallbacks hround
      simp [TcpConnection.isOpen, hclosed] at hopen
    | false =>
      have htakes : w.takes (.readable results) = [] := by
        simp [World.takes, World.reads, hopen]
      rw [World.handleRead, hopen] at hread
      obtain ⟨rfl, rfl⟩ : w = w' ∧ [] = es := by simpa using hread
      rw [htakes, List.append_nil, List.append_nil]
      exact h
  · have htakes : w.takes l = [] := by
      cases l with
      | readable results => simp [World.takes, World.reads, hother results rfl]
      | _ => rfl
    rw [htakes, List.append_nil]
    exact h.aside hdoes.outputOnly fun hmem => hdoes.shuts.why hmem rfl

end RocketRpc.Net
