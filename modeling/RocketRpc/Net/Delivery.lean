import RocketRpc.Lib.Machine
import RocketRpc.Net.ConnectionSteps

/-
  What the message callback of a connection is called with.

  A connection that receives holds what it has read and not decoded yet (`Receiving`), and a
  round of `handleRead` scans that and what it reads (`step_receives`). So a run delivers
  what `feedClean` delivers of its rounds (`run_receives`): a round that comes to a malformed
  frame closes the connection and loses the messages in front of that frame, and a round that
  comes to the end of the file loses what it has read before.

  `delivery_segmentation` and `eof_delivery` say exactly when nothing is lost.
-/

namespace RocketRpc.Net

open RocketRpc.Tcp RocketRpc.Coder StreamScan Machine

variable {crc : Bytes → UInt32}

def Event.deliveredMessages : Event → List TinyPBProtocol
  | .delivered messages => messages
  | _ => []

def Event.closing : Event → Option Why
  | .closed why => some why
  | _ => none

def Label.chunk : Label → Option Bytes
  | .readable results => some (dataOf results)
  | _ => none

/-- The messages that were passed to the message callback in a run. -/
def deliveredMessages (es : List Event) : List TinyPBProtocol :=
  es.flatMap Event.deliveredMessages

/-- Why the connection closed in a run. -/
def closings (es : List Event) : List Why := es.filterMap Event.closing

/-- What was read in each round of `handleRead`. -/
def chunks (ls : List Label) : List Bytes := ls.filterMap Label.chunk

theorem deliveredMessages_append (es fs : List Event) :
    deliveredMessages (es ++ fs) = deliveredMessages es ++ deliveredMessages fs :=
  List.flatMap_append

theorem closings_append (es fs : List Event) : closings (es ++ fs) = closings es ++ closings fs :=
  List.filterMap_append

theorem mem_closings {es : List Event} {why : Why} : why ∈ closings es ↔ .closed why ∈ es := by
  simp only [closings, List.mem_filterMap]
  constructor
  · rintro ⟨e, he, heq⟩
    cases e with
    | closed why' =>
      obtain rfl : why' = why := by simpa [Event.closing] using heq
      exact he
    | _ => simp [Event.closing] at heq
  · intro h
    exact ⟨_, h, rfl⟩

theorem delivers_nothing {es : List Event} (h : ∀ e ∈ es, e.deliveredMessages = []) :
    deliveredMessages es = [] := List.flatMap_eq_nil_iff.mpr h

theorem quiet_delivers_nothing {es : List Event} (h : ∀ e ∈ es, e.isQuiet = true) :
    deliveredMessages es = [] := by
  refine delivers_nothing fun e he => ?_
  cases e with
  | delivered messages => exact absurd (h _ he) (by simp [Event.isQuiet])
  | _ => rfl

/-! ## A step -/

/-- What a step that is not a `handleRead` leaves of the input side. -/
structure OutputOnly (c c' : TcpConnection) (es : List Event) : Prop where
  inBuffer : c'.inBuffer = c.inBuffer
  callbacks : c'.callbacks = c.callbacks
  closed : c.state = .closed → c'.state = .closed
  reading : c.Reading → c'.Reading ∨ ∃ why, why ≠ .decode ∧ why ∈ closings es
  silent : deliveredMessages es = []

theorem Quiet.outputOnly {c c' : TcpConnection} {es : List Event} (h : Quiet c c' es) :
    OutputOnly c c' es := by
  refine ⟨h.inBuffer, h.callbacks, h.closed, ?_, quiet_delivers_nothing h.silent⟩
  intro hr
  rcases h.reading hr with hr | ⟨why, hne, hmem⟩
  · exact Or.inl hr
  · exact Or.inr ⟨why, hne, mem_closings.mpr hmem⟩

/-- The output buffer is not of the input side. -/
theorem OutputOnly.of_setOutBuffer {w : World} {b : TcpBuffer} {c' : TcpConnection}
    {es : List Event} (h : OutputOnly { w.conn with outBuffer := b } c' es) :
    OutputOnly w.conn c' es :=
  ⟨h.inBuffer, h.callbacks, h.closed, fun hr => h.reading (hr.of_same rfl rfl), h.silent⟩

theorem OutputOnly.cons {c c' : TcpConnection} {es : List Event} (h : OutputOnly c c' es)
    {e : Event} (hsilent : e.deliveredMessages = []) : OutputOnly c c' (e :: es) := by
  refine ⟨h.inBuffer, h.callbacks, h.closed, ?_, ?_⟩
  · intro hr
    rcases h.reading hr with hr | ⟨why, hne, hmem⟩
    · exact Or.inl hr
    · exact Or.inr ⟨why, hne, mem_closings.mpr (List.mem_cons_of_mem e (mem_closings.mp hmem))⟩
  · rw [deliveredMessages, List.flatMap_cons, hsilent, List.nil_append]
    exact h.silent

theorem Effect.outputOnly {w : World} {c' : TcpConnection} {es : List Event}
    (h : Effect crc w.conn c' es) : OutputOnly w.conn c' es := by
  cases h with
  | quiet hq => exact hq.outputOnly
  | encoded hok hq => exact hq.outputOnly.of_setOutBuffer.cons rfl
  | refused hok hq hclosed => exact hq.outputOnly.of_setOutBuffer
  | flushed hflush hq => exact hq.outputOnly.of_setOutBuffer.cons rfl

/-- The connection reads and calls back, and `r` is what it has read and not decoded yet. -/
structure Receiving (c : TcpConnection) (r : Bytes) : Prop where
  reading : c.Reading
  message : c.callbacks.message = true
  readable : c.inBuffer.readable = r

theorem OutputOnly.receiving {c c' : TcpConnection} {es : List Event} {r : Bytes}
    (h : OutputOnly c c' es) (hr : Receiving c r) (hwhy : ∀ why ∈ closings es, why = .decode) :
    Receiving c' r := by
  rcases h.reading hr.reading with hreading | ⟨why, hne, hmem⟩
  · refine ⟨hreading, ?_, ?_⟩
    · rw [h.callbacks]
      exact hr.message
    · rw [h.inBuffer]
      exact hr.readable
  · exact absurd (hwhy why hmem) hne

theorem handleClose_delivers (w : World) (why : Why) :
    deliveredMessages (w.handleClose why).2 = [] := by
  refine delivers_nothing fun e he => ?_
  rcases mem_handleClose he with rfl | rfl
  · rfl
  · rfl

theorem handleClose_closes {w : World} (why : Why) (h : w.conn.state ≠ .closed) :
    why ∈ closings (w.handleClose why).2 := by
  have hclose : (w.close why).2 = [.closed why] := if_neg h
  rw [mem_closings, World.handleClose, if_neg h]
  split
  · rw [World.andThen, hclose]
    exact List.mem_cons_self
  · rw [hclose]
    exact List.mem_cons_self

/-- A round that is to decode `xs` closes the connection over a malformed frame and delivers
    nothing, or delivers all messages of `xs` and keeps what the scan leaves. -/
inductive Round (crc : Bytes → UInt32) (c' : TcpConnection) (es : List Event) (xs : Bytes) :
    Prop where
  | fatal (hrejected : (scan (frameDecoder crc) xs).rejected.isSome = true)
      (hlost : deliveredMessages es = []) (hclosed : c'.state = .closed)
      (hwhy : Why.decode ∈ closings es)
  | clean (hrejected : (scan (frameDecoder crc) xs).rejected = none)
      (hdelivered : deliveredMessages es = (scan (frameDecoder crc) xs).messages)
      (hrest : Receiving c' (scan (frameDecoder crc) xs).residue)

theorem decodeInput_round {w : World} {xs : Bytes} (h : Receiving w.conn xs) :
    Round crc (w.decodeInput crc).1.conn (w.decodeInput crc).2 xs := by
  obtain ⟨hmessages, hfatal, hresidue⟩ := decode_spec crc w.conn.inBuffer
  rw [h.readable] at hmessages hfatal hresidue
  have hopen : (w.setInBuffer (decode crc w.conn.inBuffer).2).conn.state ≠ .closed :=
    h.reading.not_closed
  unfold World.decodeInput
  dsimp only
  split
  · rename_i hf
    exact .fatal (hfatal ▸ hf) (handleClose_delivers _ _) (handleClose_closed _ _)
      (handleClose_closes _ hopen)
  rename_i hf
  have hrejected : (scan (frameDecoder crc) xs).rejected = none := by
    rw [hfatal] at hf
    simpa using hf
  have hrest : ∀ c : TcpConnection, c.state = w.conn.state → c.fdEvent = w.conn.fdEvent →
      c.callbacks = w.conn.callbacks → c.inBuffer = (decode crc w.conn.inBuffer).2 →
      Receiving c (scan (frameDecoder crc) xs).residue := by
    intro c hstate hfd hcb hin
    refine ⟨h.reading.of_same hstate hfd, ?_, ?_⟩
    · rw [hcb]
      exact h.message
    · rw [hin, hresidue]
  have hone : ∀ messages, deliveredMessages [.delivered messages] = messages :=
    fun _ => List.flatMap_singleton _ _
  split
  · split
    · exact .clean hrejected ((hone _).trans hmessages) (hrest _ rfl rfl rfl rfl)
    · exact .clean hrejected ((hone _).trans hmessages) (hrest _ rfl rfl rfl rfl)
  · rename_i hnone
    have hempty : (decode crc w.conn.inBuffer).1.messages = [] := by
      simpa [World.setInBuffer, h.message] using hnone
    exact .clean hrejected (hempty.symm.trans hmessages) (hrest _ rfl rfl rfl rfl)

/-- A round closes the connection without a look at what it has read, as at the end of the
    file, or decodes what it has read. -/
theorem handleRead_round {w w' : World} {results : List (Except Errno Bytes)}
    {es : List Event} {r : Bytes} (h : Receiving w.conn r)
    (hread : w.handleRead crc results = some (w', es)) :
    (deliveredMessages es = [] ∧ ∃ why ∈ closings es, why ≠ .decode) ∨
      (.ok [] ∉ results ∧ Round crc w'.conn es (r ++ dataOf results)) := by
  unfold World.handleRead at hread
  rw [if_neg (by simp [h.reading.isOpen])] at hread
  obtain ⟨⟨ended, b⟩, hloop, heq⟩ := Option.map_eq_some_iff.mp hread
  have hopen : (w.setInBuffer b).conn.state ≠ .closed := h.reading.not_closed
  have hcloses : ∀ why, why ≠ .decode →
      deliveredMessages ((w.setInBuffer b).handleClose why).2 = [] ∧
        ∃ why' ∈ closings ((w.setInBuffer b).handleClose why).2, why' ≠ .decode :=
    fun why hne => ⟨handleClose_delivers _ _, why, handleClose_closes why hopen, hne⟩
  cases ended with
  | failed e =>
    obtain ⟨rfl, rfl⟩ := Prod.mk.inj heq
    exact Or.inl (hcloses (.readError e) (by simp))
  | closed =>
    obtain ⟨rfl, rfl⟩ := Prod.mk.inj heq
    exact Or.inl (hcloses .eof (by simp))
  | drained =>
    obtain ⟨rfl, rfl⟩ := Prod.mk.inj heq
    have hreadable := readLoop_readable hloop (by simp)
    rw [h.readable] at hreadable
    have hinput : Receiving (w.setInBuffer b).conn (r ++ dataOf results) :=
      ⟨h.reading.of_same rfl rfl, h.message, hreadable⟩
    refine Or.inr ⟨fun heof => ?_, decodeInput_round hinput⟩
    exact absurd ((readLoop_closed_iff hloop).mpr heof) (by simp)

/-- A step of a connection that receives is a round of `handleRead`, or leaves the input
    alone, unless it closes the connection for a reason of its own. -/
theorem step_receives {w w' : World} {l : Label} {es : List Event} {r : Bytes}
    (h : Receiving w.conn r) (hstep : w.step crc l = some (w', es))
    (hwhy : ∀ why ∈ closings es, why = .decode) :
    (∃ c, l.chunk = some c ∧ Round crc w'.conn es (r ++ c)) ∨
      (l.chunk = none ∧ deliveredMessages es = [] ∧ Receiving w'.conn r) := by
  rcases step_cases hstep with ⟨results, rfl, -, hread⟩ | ⟨hother, heffect⟩
  · rcases handleRead_round h hread with ⟨-, why, hmem, hne⟩ | ⟨-, hround⟩
    · exact absurd (hwhy why hmem) hne
    · exact Or.inl ⟨_, rfl, hround⟩
  · have hout := heffect.outputOnly
    refine Or.inr ⟨?_, hout.silent, hout.receiving h hwhy⟩
    cases l with
    | readable results =>
      exact absurd (hother results rfl) (by simp [h.reading.readCallback])
    | _ => rfl

/-- A closed connection stays closed and delivers nothing. -/
theorem step_closed {w w' : World} {l : Label} {es : List Event} (h : w.conn.state = .closed)
    (hstep : w.step crc l = some (w', es)) :
    w'.conn.state = .closed ∧ deliveredMessages es = [] := by
  rcases step_cases hstep with ⟨results, -, -, hread⟩ | ⟨-, heffect⟩
  · have hnot : w.conn.isOpen = false := by simp [TcpConnection.isOpen, h]
    rw [World.handleRead, hnot] at hread
    obtain ⟨rfl, rfl⟩ : w = w' ∧ [] = es := by simpa using hread
    exact ⟨h, rfl⟩
  · exact ⟨heffect.outputOnly.closed h, heffect.outputOnly.silent⟩

/-! ## Runs -/

theorem run_closed {w w' : World} {ls : List Label} {es : List Event}
    (h : w.conn.state = .closed) (hrun : run (World.step crc) w ls = some (w', es)) :
    deliveredMessages es = [] := by
  have hinit : w.conn.state = .closed ∧ deliveredMessages [] = [] := ⟨h, rfl⟩
  refine (run_induction (fun v tr => v.conn.state = .closed ∧ deliveredMessages tr = []) ?_ []
    hinit hrun).2
  rintro s tr l s' es ⟨hclosed, hnothing⟩ hstep
  obtain ⟨hclosed', hnothing'⟩ := step_closed hclosed hstep
  refine ⟨hclosed', ?_⟩
  rw [deliveredMessages_append, hnothing, hnothing', List.append_nil]

/-- A run delivers what feeding its rounds to the decoder of frames delivers. -/
theorem run_receives {w w' : World} {ls : List Label} {es : List Event} {r : Bytes}
    (h : Receiving w.conn r) (hrun : run (World.step crc) w ls = some (w', es))
    (hwhy : ∀ why ∈ closings es, why = .decode) :
    deliveredMessages es = feedClean (frameDecoder crc) r (chunks ls) := by
  induction ls generalizing w es r with
  | nil =>
    obtain ⟨-, rfl⟩ : w = w' ∧ [] = es := by simpa using hrun
    rfl
  | cons l ls ih =>
    obtain ⟨w₁, es₁, es₂, hstep, hrest, rfl⟩ := run_cons_eq_some.mp hrun
    rw [closings_append] at hwhy
    have hwhy₁ : ∀ why ∈ closings es₁, why = .decode :=
      fun why hmem => hwhy why (List.mem_append_left _ hmem)
    have hwhy₂ : ∀ why ∈ closings es₂, why = .decode :=
      fun why hmem => hwhy why (List.mem_append_right _ hmem)
    rw [deliveredMessages_append]
    rcases step_receives h hstep hwhy₁ with ⟨c, hchunk, hround⟩ | ⟨hchunk, hnothing, hrecv⟩
    · rw [chunks, List.filterMap_cons_some hchunk, ← chunks, feedClean]
      cases hround with
      | fatal hrejected hlost hclosed _ =>
        rw [if_pos hrejected, hlost, run_closed hclosed hrest]
        rfl
      | clean hrejected hdelivered hrecv =>
        rw [if_neg (by simp [hrejected]), hdelivered, ih hrecv hrest hwhy₂]
    · rw [chunks, List.filterMap_cons_none hchunk, ← chunks, hnothing, List.nil_append]
      exact ih hrecv hrest hwhy₂

/-- As long as the connection is not closed, a run delivers all messages of what it reads,
    and goes on receiving. -/
theorem run_receiving {w w' : World} {ls : List Label} {es : List Event} {r : Bytes}
    (h : Receiving w.conn r) (hrun : run (World.step crc) w ls = some (w', es))
    (hopen : closings es = []) (hwait : (frameDecoder crc).verdict r = .wait) :
    deliveredMessages es = (scan (frameDecoder crc) (r ++ (chunks ls).flatten)).messages ∧
      ∃ r', Receiving w'.conn r' := by
  induction ls generalizing w es r with
  | nil =>
    obtain ⟨rfl, rfl⟩ : w = w' ∧ [] = es := by simpa using hrun
    exact ⟨(scan_no_chunks hwait).2.symm, r, h⟩
  | cons l ls ih =>
    obtain ⟨w₁, es₁, es₂, hstep, hrest, rfl⟩ := run_cons_eq_some.mp hrun
    rw [closings_append, List.append_eq_nil_iff] at hopen
    rw [deliveredMessages_append]
    rcases step_receives h hstep (by simp [hopen.1]) with
      ⟨c, hchunk, hround⟩ | ⟨hchunk, hnothing, hrecv⟩
    · cases hround with
      | fatal _ _ _ hwhy => exact absurd hwhy (by simp [hopen.1])
      | clean hrejected hdelivered hrecv =>
        obtain ⟨hmessages, hlast⟩ := ih hrecv hrest hopen.2 (residue_waits hrejected)
        refine ⟨?_, hlast⟩
        rw [chunks, List.filterMap_cons_some hchunk, ← chunks, List.flatten_cons,
          ← List.append_assoc, scan_append _ hrejected, Result.messages_prepend,
          Result.messages_shift, hdelivered, hmessages]
        rfl
    · rw [chunks, List.filterMap_cons_none hchunk, ← chunks, hnothing, List.nil_append]
      exact ih hrecv hrest hopen.2 hwait

/-! ## Segmentation -/

/-- The connection was established, with a message callback and no other. -/
def established : World :=
  (World.connectEstablished { conn := { callbacks := ⟨true, false, false, false, false⟩ } }).1

/-- An established connection reads, unless a connect is under way. -/
theorem connectEstablished_reading {w : World} (h : w.conn.state = .notConnected)
    (hconnect : ∀ cb, w.conn.fdEvent.writeCallback ≠ some (.finish cb)) :
    w.connectEstablished.1.conn.Reading := by
  unfold World.connectEstablished
  rw [if_neg (by simp [h])]
  dsimp only
  split
  · exact ⟨rfl, rfl, hconnect, by simp [World.push]⟩
  · exact ⟨rfl, rfl, hconnect, by simp⟩

/-- A connect that succeeds leaves a connection that reads. -/
theorem finish_reading {w : World} (h : w.conn.state = .notConnected) (cb : Bool) :
    (w.finish cb 0).1.conn.Reading := by
  rw [World.finish, if_neg (by simp)]
  exact connectEstablished_reading h (by simp [World.push, World.clearCallbacks])

theorem established_reading : established.conn.Reading :=
  connectEstablished_reading rfl (by simp)

/-- Delivery and segmentation: the messages in front of the first malformed frame of the
    stream are delivered exactly when some of the first rounds have read all of them and no
    malformed frame. The round that reads the malformed frame delivers nothing. -/
theorem delivery_segmentation (crc : Bytes → UInt32) (w₀ w : World) (ls : List Label)
    (es : List Event) (h₀ : w₀.conn.Reading) (hempty : w₀.conn.inBuffer.readable = [])
    (hmessage : w₀.conn.callbacks.message = true)
    (hrun : run (World.step crc) w₀ ls = some (w, es))
    (hwhy : ∀ why ∈ closings es, why = .decode) :
    deliveredMessages es = (scan (frameDecoder crc) (chunks ls).flatten).messages ↔
      ∃ k, (scan (frameDecoder crc) ((chunks ls).take k).flatten).rejected = none ∧
        (scan (frameDecoder crc) ((chunks ls).take k).flatten).messages =
          (scan (frameDecoder crc) (chunks ls).flatten).messages := by
  have hwait : (frameDecoder crc).verdict [] = .wait := verdict_nil _
  rw [run_receives ⟨h₀, hmessage, hempty⟩ hrun hwhy]
  simpa using feedClean_eq_iff hwait (chunks ls)

/-- A frame, and a frame whose checksum is wrong. -/
def goodFrame : Bytes := (sealed (fun _ => 0) { msgId := [49] }).frame

def badFrame : Bytes := (sealed (fun _ => 1) { msgId := [49] }).frame

/-- Both frames are read in one round, or in a round each. -/
def oneRound : List Label := [.readable [.ok (goodFrame ++ badFrame)]]

def twoRounds : List Label := [.readable [.ok goodFrame], .returns, .readable [.ok badFrame]]

theorem delivery_segmentation_two_rounds :
    ∃ w es, run (World.step fun _ => 0) established twoRounds = some (w, es) ∧
      deliveredMessages es =
        (scan (frameDecoder fun _ => 0) (chunks twoRounds).flatten).messages := by
  have hrun : (run (World.step fun _ => 0) established twoRounds).map (fun r => closings r.2) =
      some [.decode] := by
    decide +kernel
  obtain ⟨⟨w, es⟩, hw, heq⟩ := Option.map_eq_some_iff.mp hrun
  refine ⟨w, es, hw, (delivery_segmentation (fun _ => 0) established w twoRounds es
    established_reading (TcpBuffer.readable_new _) rfl hw ?_).mpr ⟨1, ?_⟩⟩
  · intro why hmem
    rw [show closings es = [.decode] from heq] at hmem
    exact List.mem_singleton.mp hmem
  · decide +kernel

/-- The same stream delivers its first message, or does not. -/
theorem delivery_segmentation_lost :
    (chunks oneRound).flatten = (chunks twoRounds).flatten ∧
      (scan (frameDecoder fun _ => 0) (chunks oneRound).flatten).messages =
        [sealed (fun _ => 0) { msgId := [49] }] ∧
      (run (World.step fun _ => 0) established oneRound).map
        (fun r => (closings r.2, deliveredMessages r.2)) = some ([.decode], []) ∧
      (run (World.step fun _ => 0) established twoRounds).map
        (fun r => (closings r.2, deliveredMessages r.2)) =
          some ([.decode], [sealed (fun _ => 0) { msgId := [49] }]) := by
  refine ⟨by decide +kernel, by decide +kernel, by decide +kernel, by decide +kernel⟩

/-! ## The end of the file -/

/-- The frames of a scan fit into what it scans. -/
theorem length_frames_messages (crc : Bytes → UInt32) (xs : Bytes) :
    (frames ((scan (frameDecoder crc) xs).messages.map .tinyPB)).length ≤ xs.length := by
  induction xs using scan_induction (frameDecoder crc) with
  | wait xs hv =>
    rw [scan_wait hv]
    exact Nat.zero_le _
  | skip xs hv ih =>
    rw [List.length_drop] at ih
    rw [scan_skip hv, Result.messages_shift]
    omega
  | emit xs m n hv ih =>
    obtain ⟨hcand, -, htext⟩ := verdict_eq_iff.mp hv
    have hframe := congrArg List.length htext
    rw [List.length_take_of_le hcand.complete] at hframe
    have hle := hcand.complete
    rw [List.length_drop] at ih
    rw [scan_emit hv, Result.messages_push, Result.messages_shift, List.map_cons, frames,
      List.length_append, ← hframe]
    omega
  | reject xs n hv =>
    rw [scan_reject hv]
    exact Nat.zero_le _

/-- A round that reads 64 KiB or more goes on reading, and may find the end of the file. -/
theorem readLoop_large {b : TcpBuffer} {data : Bytes} (hroom : b.writeAble ≠ 0)
    (hlimit : data.length ≤ b.readvLimit)
    (hmax : kPrependSize + b.readAble + data.length ≤ kMaxBufferSize)
    (hlarge : kMaxReadPerRound ≤ data.length) :
    ∃ b', readLoop b [.ok data, .ok []] = some (.closed, b') := by
  have hmake : makeReadable b = b := if_neg hroom
  have hpos : 0 < kMaxReadPerRound := by decide
  have hok := TcpBuffer.readFromFd_of_le hmax
  cases hpair : b.readFromFd (.ok data) with
  | mk n b₁ =>
    rw [hpair] at hok
    obtain rfl : n = .ok data.length := hok
    rw [readLoop, hmake, hpair, if_neg (by simp [readvFits, hlimit])]
    simp only
    rw [if_neg (by omega), if_neg (by omega), readLoop, if_neg (by simp [readvFits])]
    exact ⟨_, rfl⟩

/-- A stream of frames, in rounds of which the last comes to the end of the file: all its
    messages are delivered exactly when the last round reads nothing in front of the end. -/
theorem eof_delivery (crc : Bytes → UInt32) (w₀ u w : World) (ls : List Label)
    (results : List (Except Errno Bytes)) (es fs : List Event) (ms : List TinyPBProtocol)
    (h₀ : w₀.conn.Reading) (hempty : w₀.conn.inBuffer.readable = [])
    (hmessage : w₀.conn.callbacks.message = true)
    (hrun : run (World.step crc) w₀ ls = some (u, es)) (hopen : closings es = [])
    (hstep : u.step crc (.readable results) = some (w, fs)) (heof : .ok [] ∈ results)
    (hms : ∀ m ∈ ms, m.WellFormed crc)
    (hstream : (chunks ls).flatten ++ dataOf results = frames (ms.map .tinyPB)) :
    deliveredMessages (es ++ fs) = ms ↔ dataOf results = [] := by
  obtain ⟨hmessages, r, hrecv⟩ :=
    run_receiving ⟨h₀, hmessage, hempty⟩ hrun hopen (verdict_nil _)
  have hlast : deliveredMessages fs = [] := by
    rcases step_cases hstep with ⟨results', heq, -, hread⟩ | ⟨hother, -⟩
    · obtain rfl : results = results' := by simpa using heq
      rcases handleRead_round hrecv hread with ⟨hnothing, -⟩ | ⟨hno, -⟩
      · exact hnothing
      · exact absurd heof hno
    · exact absurd (hother results rfl) (by simp [hrecv.reading.readCallback])
  rw [deliveredMessages_append, hlast, List.append_nil, hmessages, List.nil_append]
  constructor
  · intro h
    have hfit := length_frames_messages crc (chunks ls).flatten
    rw [h, ← hstream, List.length_append] at hfit
    exact List.length_eq_zero_iff.mp (by omega)
  · intro h
    rw [h, List.append_nil] at hstream
    rw [hstream]
    exact (scan_frames hms).1

theorem eof_delivery_own_round :
    ∃ u es w fs, run (World.step fun _ => 0) established [.readable [.ok goodFrame], .returns] =
        some (u, es) ∧
      u.step (fun _ => 0) (.readable [.error .EINTR, .ok []]) = some (w, fs) ∧
      deliveredMessages (es ++ fs) = [sealed (fun _ => 0) { msgId := [49] }] := by
  have hrun : ((run (World.step fun _ => 0) established
      [.readable [.ok goodFrame], .returns]).map fun r =>
        (closings r.2, (r.1.step (fun _ => 0) (.readable [.error .EINTR, .ok []])).isSome)) =
      some ([], true) := by
    decide +kernel
  obtain ⟨⟨u, es⟩, hu, heq⟩ := Option.map_eq_some_iff.mp hrun
  obtain ⟨hopen, hsome⟩ := Prod.mk.inj heq
  obtain ⟨⟨w, fs⟩, hw⟩ := Option.isSome_iff_exists.mp hsome
  refine ⟨u, es, w, fs, hu, hw, ?_⟩
  refine (eof_delivery (fun _ => 0) established u w _ _ es fs
    [sealed (fun _ => 0) { msgId := [49] }] established_reading (TcpBuffer.readable_new _) rfl
    hu hopen hw (by simp) ?_ (by decide +kernel)).mpr rfl
  intro m hm
  rw [List.mem_singleton.mp hm]
  exact written_wellFormed _ _ (by decide)

/-- A message whose frame is a little longer than 64 KiB. -/
def largeMessage : TinyPBProtocol := { msgId := [49], pbData := List.replicate 65536 0 }

theorem packetSize_largeMessage : (withMsgId largeMessage).packetSize = 65563 := by
  have hid : withMsgId largeMessage = largeMessage := if_neg (List.cons_ne_nil 49 [])
  have hdata : largeMessage.pbData.length = 65536 := List.length_replicate
  rw [hid, TinyPBProtocol.packetSize, hdata]
  rfl

/-- The frame and the end of the file are read in one round, and the frame is lost. -/
theorem eof_delivery_lost :
    (sealed (fun _ => 0) largeMessage).WellFormed (fun _ => 0) ∧
      dataOf [.ok (sealed (fun _ => 0) largeMessage).frame, .ok []] =
        frames [.tinyPB (sealed (fun _ => 0) largeMessage)] ∧
      ∃ w es, established.step (fun _ => 0)
          (.readable [.ok (sealed (fun _ => 0) largeMessage).frame, .ok []]) = some (w, es) ∧
        closings es = [.eof] ∧ deliveredMessages es = [] := by
  have hlen : (sealed (fun _ => 0) largeMessage).frame.length = 65563 := by
    rw [TinyPBProtocol.length_frame, sealed, packetSize_written, packetSize_largeMessage]
  have hlimit : established.conn.inBuffer.readvLimit = 66560 := by decide +kernel
  have hread : established.conn.inBuffer.readAble = 0 := by decide +kernel
  obtain ⟨b, hb⟩ := @readLoop_large established.conn.inBuffer
    (sealed (fun _ => 0) largeMessage).frame (by decide +kernel) (by omega)
    (by rw [hread, hlen]; decide +kernel)
    (by rw [hlen]; decide +kernel)
  have hround : established.handleRead (fun _ => 0)
      [.ok (sealed (fun _ => 0) largeMessage).frame, .ok []] =
        some ((established.setInBuffer b).handleClose .eof) := by
    rw [World.handleRead, if_neg (by decide), hb]
    rfl
  refine ⟨written_wellFormed _ _ ?_, rfl, _, _, hround, rfl, rfl⟩
  rw [packetSize_largeMessage]
  decide +kernel

end RocketRpc.Net
