import RocketRpc.Lib.Link
import RocketRpc.Net.MessagePipe
import RocketRpc.Net.SendPaths
import RocketRpc.Net.StreamEnds

/-
  Two connections and the wires between them.

  Each end is a connection with its loop and the other threads, and takes any step of its own.
  The bytes that the kernel accepts at one end are on their way to the other, whose `readv`
  calls take them in any pieces; they return 0 only behind all of them, when the first end has
  shut its write side down or is closed.

  What is read back is what was encoded (`pair_delivers`), so the coder closes no connection, and
  each thread's messages arrive in the order of its sends. `pair_in_order` and `pair_complete` are
  the results.
-/

namespace RocketRpc.Net

open RocketRpc.Tcp RocketRpc.Coder StreamScan Machine TinyPBProtocol Link

variable {crc : Bytes → UInt32}

/-- A connection as an end of a link. -/
def port (crc : Bytes → UInt32) : Port World Label Event UInt8 where
  step := World.step crc
  takes := World.takes
  seesEnd := World.seesEnd
  puts := Event.acceptedBytes
  ended w := w.conn.writeShut || w.conn.state == .closed

abbrev ConnectionPair := Joined World UInt8

namespace ConnectionPair

def new (callbacks : End → Callbacks) (highWaterMark : End → Nat) : ConnectionPair :=
  Joined.new fun e => World.new (callbacks e) (highWaterMark e)

def step (crc : Bytes → UInt32) (p : ConnectionPair) :
    End × Label → Option (ConnectionPair × List (End × Event)) := Joined.step (port crc) p

end ConnectionPair

/-! ## Between the ends -/

section Run

variable {callbacks : End → Callbacks} {highWaterMark : End → Nat} {p : ConnectionPair}
  {ls : List (End × Label)} {tr : List (End × Event)}
  (hrun : run (ConnectionPair.step crc) (.new callbacks highWaterMark) ls = some (p, tr))

include hrun

/-- At each end a run is a run of a connection. -/
theorem pair_run (e : End) :
    run (World.step crc) (World.new (callbacks e) (highWaterMark e)) (part e ls) =
      some (p.ends e, part e tr) := run_part hrun e

theorem pair_written (e : End) : ∃ ns, Written crc (p.ends e).conn (part e tr) ns :=
  run_induction (fun w es => ∃ ns, Written crc w.conn es ns)
    (fun _ _ _ _ _ h hs => step_written h hs) []
    ⟨[], written_new (TcpBuffer.readable_new kDefaultBufferSize)⟩ (pair_run hrun e)

theorem pair_decoded {e : End} (hmessage : (callbacks e).message = true) :
    Decoded crc (p.ends e).conn (part e tr) (p.taken e) :=
  run_takes (fun w es taken => Decoded crc w.conn es taken) e
    (fun _ _ _ _ _ _ h hs => step_decoded h hs)
    (decoded_new hmessage (TcpBuffer.readable_new kDefaultBufferSize)) hrun

/-- What an end has taken, what is on its way to it and what waits at the other end are the frames
    that the other end has written. -/
theorem pair_stream {e : End} {ns : List TinyPBProtocol}
    (h : Written crc (p.ends e.other).conn (part e.other tr) ns) :
    p.taken e ++ (p.wire e ++ (p.ends e.other).conn.outBuffer.readable) = ns.flatMap frame := by
  have hsent : acceptedBytes (part e.other tr) = p.taken e ++ p.wire e := run_conserves hrun e
  rw [← List.append_assoc, ← hsent, h.bytes]

/-- What the callback of an end was given is a first part of what the other end has written, and all
    of it where nothing is on its way. The decoder finds no malformed frame. -/
theorem pair_delivers {e : End} (hmessage : (callbacks e).message = true)
    {ns : List TinyPBProtocol} (h : Written crc (p.ends e.other).conn (part e.other tr) ns) :
    .decode ∉ closings (part e tr) ∧ deliveredMessages (part e tr) <+: ns ∧
      ((p.ends e).conn.state ≠ .closed → p.wire e = [] →
        (p.ends e.other).conn.outBuffer.readable = [] → deliveredMessages (part e tr) = ns) := by
  have hstream := pair_stream hrun h
  have htaken : p.taken e <+: ns.flatMap (framing crc).write := ⟨_, hstream⟩
  have hdec := pair_decoded hrun hmessage
  refine ⟨fun hmem => ?_, ?_, fun hopen hwire hout => ?_⟩
  · have hrej : (scan (frameDecoder crc) (p.taken e)).rejected = none :=
      (scan_part h.wellFormed htaken).1
    simpa [hrej] using hdec.malformed hmem
  · obtain ⟨part, hpart, -, hgiven⟩ := hdec.part
    rw [hgiven]
    exact (scan_part h.wellFormed (hpart.trans htaken)).2
  · rw [hwire, hout, List.append_nil, List.append_nil] at hstream
    rw [(hdec.current hopen).2.1, hstream]
    exact scan_writes (f := framing crc) h.wellFormed

theorem pair_closedOnce (e : End) : ClosedOnce (p.ends e).conn (part e tr) :=
  run_induction (fun w es => ClosedOnce w.conn es) (fun _ _ _ _ _ h hs => step_closedOnce h hs) []
    (Or.inl ⟨rfl, by simp [World.new]⟩) (pair_run hrun e)

/-- The account of the sends at an end goes along with the run. -/
theorem pair_sending (e : End) :
    ∃ x, run (Sending.step crc) ⟨⟨World.new (callbacks e) (highWaterMark e), {}⟩, []⟩ (part e ls) =
      some (x, part e tr) ∧ x.world = p.ends e := by
  refine run_lift Sending.world (fun x l w es h => ?_) (pair_run hrun e)
  have hstep : x.tracked.world.step crc l = some (w, es) := h
  exact ⟨_, by rw [Sending.step, Tracked.step, hstep]; rfl, rfl⟩

end Run

/-! ## Messages as they travel -/

/-- What the other end is to be given for a message. -/
def Sent.travels (crc : Bytes → UInt32) (e : Sent) : Option TinyPBProtocol :=
  e.message.tinyPB?.map (sealed crc)

theorem tinyPBs_sealedAll (es : List Sent) :
    tinyPBs (sealedAll crc (es.map Sent.message)) = es.filterMap (Sent.travels crc) := by
  induction es with
  | nil => rfl
  | cons e es ih =>
    obtain ⟨n, m⟩ := e
    cases m with
    | other => exact ih
    | tinyPB m => exact congrArg (sealed crc m :: ·) ih

/-- A first part of what is to be given is what is to be given for a first part. -/
theorem travels_part {es : List Sent} {ms : List TinyPBProtocol}
    (h : ms <+: es.filterMap (Sent.travels crc)) :
    ∃ got, got <+: es ∧ ms = got.filterMap (Sent.travels crc) ∧
      (ms = es.filterMap (Sent.travels crc) → got = es) := by
  by_cases hall : ms = es.filterMap (Sent.travels crc)
  · exact ⟨es, List.prefix_rfl, hall, fun _ => rfl⟩
  · obtain ⟨got, hgot, hms⟩ := List.prefix_filterMap_iff.mp h
    exact ⟨got, hgot, hms, fun h => absurd h hall⟩

theorem fromOrigin_part (log : List Passed) (o : Option ThreadId) {es fs : List Sent}
    (h : es <+: fs) : fromOrigin log o es <+: fromOrigin log o fs := h.filter _

/-! ## What an end has sent -/

theorem sending_paths {callbacks : Callbacks} {highWaterMark : Nat} {ls : List Label} {x : Sending}
    {es : List Event} (hrun : run (Sending.step crc)
      ⟨⟨World.new callbacks highWaterMark, {}⟩, []⟩ ls = some (x, es)) : Paths crc x es :=
  run_induction (Paths crc) (fun _ _ _ _ _ h hs => step_paths h hs) [] (paths_new _ _) hrun

theorem sending_kept {callbacks : Callbacks} {highWaterMark : Nat} {ls : List Label} {x : Sending}
    {es : List Event}
    (hrun : run (Sending.step crc) ⟨⟨World.new callbacks highWaterMark, {}⟩, []⟩ ls = some (x, es))
    (hready : RunOk (Sending.step crc) Ready ⟨⟨World.new callbacks highWaterMark, {}⟩, []⟩ ls) :
    Kept x := by
  have hboth : Paths crc x es ∧ Kept x := runOk_induction (fun y fs => Paths crc y fs ∧ Kept y)
    (fun _ _ _ _ _ h hl hs => ⟨step_paths h.1 hs, (step_kept_iff h.1 h.2 hs).mpr hl⟩) []
    ⟨paths_new _ _, fun _ o => by cases o <;> rfl⟩ hready hrun
  exact hboth.2

/-- What is encoded of a thread's messages is in front of all that is on the way. -/
theorem encodedFrom_part (x : Sending) (o : Option ThreadId) :
    x.encodedFrom o <+: onTheWay x.log x.world x.account o := by
  unfold onTheWay
  rw [fromOrigin_append, List.append_assoc]
  exact List.prefix_append _ _

/-- An established connection at rest that does not wait for `OUT_EVENT` has nothing left to
    write. -/
theorem written_at_rest {callbacks : Callbacks} {highWaterMark : Nat} {ls : List Label} {w : World}
    {es : List Event}
    (harmed : RunOk (World.step crc) ArmedAtConnect (World.new callbacks highWaterMark) ls)
    (hrun : run (World.step crc) (World.new callbacks highWaterMark) ls = some (w, es))
    (hconn : w.conn.state = .connected) (hrest : w.AtRest)
    (hidle : w.conn.fdEvent.writeCallback = none) : w.conn.outBuffer.readable = [] := by
  obtain ⟨hstack, htasks, -⟩ := hrest
  have h : Flushed w := runOk_induction (fun v _ => Flushed v)
    (fun _ _ _ _ _ hv hl hs => step_flushed hv hl hs) []
    (flushed_of_state (by simp [World.new]) (by simp [World.new])) harmed hrun
  by_contra hout
  rcases h.armed hconn hout with hq | hw | ⟨frame, hmem, -⟩
  · exact absurd (htasks ▸ h.queued hq) List.not_mem_nil
  · exact absurd (hidle.symm.trans hw) (by simp)
  · exact absurd (hstack ▸ hmem) List.not_mem_nil

/-! ## Main results -/

/-- The messages of the sends at an end, as far as they were given to the callback of the other:
    a first part of what was encoded. -/
theorem pair_given {callbacks : End → Callbacks} {highWaterMark : End → Nat} {p : ConnectionPair}
    {ls : List (End × Label)} {tr : List (End × Event)} {e : End}
    (hrun : run (ConnectionPair.step crc) (.new callbacks highWaterMark) ls = some (p, tr))
    (hmessage : (callbacks e).message = true) (hencode : .encode ∉ closings (part e.other tr))
    {x : Sending} (hx : Tracks crc x.tracked (part e.other tr)) :
    ∃ got, got <+: x.account.encoded ∧
      deliveredMessages (part e tr) = got.filterMap (Sent.travels crc) ∧
      ((p.ends e).conn.state ≠ .closed → p.wire e = [] →
        (p.ends e.other).conn.outBuffer.readable = [] → got = x.account.encoded) := by
  obtain ⟨ns, hns⟩ := pair_written hrun e.other
  obtain ⟨-, hgiven, hall⟩ := pair_delivers hrun hmessage hns
  have hencoded : ns = x.account.encoded.filterMap (Sent.travels crc) := by
    rw [hns.encoded hencode, hx.encoded, tinyPBs_sealedAll]
    rfl
  rw [hencoded] at hgiven hall
  obtain ⟨got, hgot, hms, hsame⟩ := travels_part hgiven
  exact ⟨got, hgot, hms, fun hopen hwire hout => hsame (hall hopen hwire hout)⟩

/-- In every run of two connections, whatever their loops and threads do and however the bytes
    between them are cut, neither closes over a malformed frame. Unless the encoder refused a batch
    at the other end, the message callback was given the messages that the other end encoded, as
    they travel, up to some point: each once, and those of each thread in the order of its sends. -/
theorem pair_in_order (crc : Bytes → UInt32) (callbacks : End → Callbacks)
    (highWaterMark : End → Nat) (ls : List (End × Label)) (p : ConnectionPair)
    (tr : List (End × Event)) (e : End) (hmessage : (callbacks e).message = true)
    (hrun : run (ConnectionPair.step crc) (.new callbacks highWaterMark) ls = some (p, tr)) :
    .decode ∉ closings (part e tr) ∧
      (.encode ∉ closings (part e.other tr) →
        ∃ x got, run (Sending.step crc)
            ⟨⟨World.new (callbacks e.other) (highWaterMark e.other), {}⟩, []⟩ (part e.other ls) =
              some (x, part e.other tr) ∧
          got <+: x.account.encoded ∧
          deliveredMessages (part e tr) = got.filterMap (Sent.travels crc) ∧
          ∀ o, (fromOrigin x.log o got).Sublist (sentBy x.log o)) := by
  obtain ⟨ns, hns⟩ := pair_written hrun e.other
  refine ⟨(pair_delivers hrun hmessage hns).1, fun hencode => ?_⟩
  obtain ⟨x, hx, -⟩ := pair_sending hrun e.other
  have hpaths := sending_paths hx
  obtain ⟨got, hgot, hms, -⟩ := pair_given hrun hmessage hencode hpaths.tracks
  refine ⟨x, got, hx, hgot, hms, fun o => ?_⟩
  exact ((fromOrigin_part x.log o hgot).trans (encodedFrom_part x o)).sublist.trans (hpaths.order o)

/-- Another thread sends, and the kernel takes a part of the frame. -/
def sentAway : List Label :=
  .call .connectEstablished :: sentElsewhere (.tinyPB { msgId := [49] }) ++ drainSteps 7 ++
    [.task, .resume [.ok 20, .error .EAGAIN] false]

/-- The other end reads that part in front of the rest. -/
def sentOver : List (End × Label) :=
  sentAway.map (Prod.mk .near) ++
    [(.far, .call .connectEstablished), (.far, .readable [.ok (goodFrame.take 20)]),
      (.near, .writable 0), (.near, .resume [.ok 7] false),
      (.far, .readable [.error .EINTR, .ok (goodFrame.drop 20)]), (.far, .returns)]

/-- The callbacks of both ends. -/
def pairCallbacks : End → Callbacks := fun _ => ⟨true, false, true, false, false⟩

theorem pair_in_order_cut :
    ∃ p tr, run (ConnectionPair.step fun _ => 0) (.new pairCallbacks fun _ => 0) sentOver =
        some (p, tr) ∧
      ∃ got : List Sent, got ≠ [] ∧
        deliveredMessages (part .far tr) = got.filterMap (Sent.travels fun _ => 0) := by
  have hrun : (run (ConnectionPair.step fun _ => 0) (.new pairCallbacks fun _ => 0)
      sentOver).map (fun r => decide (.encode ∉ closings (part End.far.other r.2) ∧
        deliveredMessages (part .far r.2) ≠ [])) = some true := by decide +kernel
  obtain ⟨⟨p, tr⟩, hp, heq⟩ := Option.map_eq_some_iff.mp hrun
  obtain ⟨hencode, hgiven⟩ := of_decide_eq_true heq
  obtain ⟨-, hin⟩ := pair_in_order (fun _ => 0) pairCallbacks (fun _ => 0) sentOver p tr .far rfl hp
  obtain ⟨x, got, -, -, hms, -⟩ := hin hencode
  refine ⟨p, tr, hp, got, ?_, hms⟩
  rintro rfl
  exact hgiven hms

end RocketRpc.Net
