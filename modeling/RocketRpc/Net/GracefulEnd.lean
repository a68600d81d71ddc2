import RocketRpc.Net.ConnectionPair
import RocketRpc.Net.GracefulClose

/-
  A graceful close, seen from the other end.

  A connection that turns messages away and has written everything stays so (`ShutDown`,
  `step_output`), and what it owes is encoded: while it is half closed (`owed_encoded`), and behind
  the graceful close that closes it (`Finished`). So a reader that sees the end of the stream in
  a round of its own has been given all of it (`graceful_end`).
-/

namespace RocketRpc.Net

open RocketRpc.Tcp RocketRpc.Coder Machine Account TinyPBProtocol Link

variable {crc : Bytes → UInt32}

/-! ## The output of a connection that turns messages away -/

/-- A step of a connection that turns messages away writes no more than is waiting. -/
theorem step_output {w w' : World} {l : Label} {es : List Event} (hrej : w.conn.rejects = true)
    (hout : w.conn.outBuffer.readable = []) (hs : w.step crc l = some (w', es)) :
    w'.conn.outBuffer.readable = [] := by
  rcases step_does hs with ⟨results, -, -, hread⟩ | ⟨-, hdoes⟩
  · rw [(handleRead_inputOnly hread).outBuffer]
    exact hout
  cases hdoes with
  | @sends v messages hv hsend =>
    have hturned : v.sendInLoopBatch crc messages = (v, []) := if_pos (hv ▸ hrej)
    obtain ⟨rfl, -⟩ := Prod.mk.inj (hturned.symm.trans hsend)
    rw [hv]
    exact hout
  | flushes hv hflush =>
    have hbytes := (@flush_writes crc _ _ _ _ hflush).bytes
    rw [hv, hout] at hbytes
    exact (List.append_eq_nil_iff.mp hbytes).2
  | calm hquiet hshuts =>
    rw [hquiet.outBuffer]
    exact hout

/-- A connection whose write side is shut down has nothing left to write. -/
def ShutDown (c : TcpConnection) : Prop :=
  c.writeShut = true → c.rejects = true ∧ c.outBuffer.readable = []

theorem step_shutDown {w w' : World} {l : Label} {es : List Event} (h : ShutDown w.conn)
    (hs : w.step crc l = some (w', es)) : ShutDown w'.conn := by
  intro hshut
  have hshuts := step_shuts hs
  rcases hshuts.writeShut hshut with hshut | hdone
  · obtain ⟨hrej, hout⟩ := h hshut
    exact ⟨hshuts.rejects hrej, step_output hrej hout hs⟩
  · exact hdone

/-! ## What is owed -/

/-- What a half-closed connection owes is encoded. -/
theorem owed_encoded {x : Tracked} {tr : List Event} (h : Along crc x tr)
    (hrej : x.world.conn.rejects = true) (hopen : x.world.conn.state ≠ .closed) :
    ∀ e ∈ x.account.owed, e ∈ x.account.encoded := by
  intro e he
  have hbatch : x.account.batch = [] := by
    by_contra hne
    simp [TcpConnection.rejects, h.tracks.round.connected hne] at hrej
  rcases h.safe.owed hopen e he with hin | hin | hin
  · exact absurd he ((h.settled hrej).1 e hin)
  · exact absurd (hbatch ▸ hin) List.not_mem_nil
  · exact hin

/-- A settled account of a connection that turns messages away owes nothing more. -/
theorem Account.Settled.moves {w w' : World} {a a' : Account} {l : Label} (h : a.Settled)
    (hrej : w.conn.rejects = true) (hm : Moves crc l w w' a a') :
    a'.owed = a.owed ∧ a'.encoded = a.encoded := by
  cases hm with
  | aside | shut | pushed | went => exact ⟨rfl, rfl⟩
  | sent message _ hno | entered t message _ _ _ _ hno =>
    exact absurd (hrej.symm.trans hno) (by simp)
  | popped hqueue =>
    unfold Account.pop
    rw [hqueue]
    dsimp only
    split <;> exact ⟨rfl, rfl⟩
  | ended =>
    have hno : encodes crc w a.batch = false := by simp [encodes, hrej]
    unfold Account.endRound
    rw [hno, hrej]
    exact ⟨rfl, rfl⟩
  | left hentry =>
    rw [leave_eq hentry]
    exact ⟨if_pos (settled_shut h hentry), rfl⟩

/-- Behind a graceful close everything is written, and what is owed is encoded. -/
def Finished (x : Tracked) (tr : List Event) : Prop :=
  x.world.conn.state = .closed → (∀ why ∈ closings tr, why = .drained) →
    x.world.conn.outBuffer.readable = [] ∧ ∀ e ∈ x.account.owed, e ∈ x.account.encoded

/-- The step on which the graceful close closes the connection. -/
theorem drained_finished {x x' : Tracked} {tr : List Event} {l : Label} {es : List Event}
    (h : Along crc x tr) (hok : Graceful crc x l) (hs : x.step crc l = some (x', es))
    (hclosings : closings es = [.drained]) :
    x'.world.conn.outBuffer.readable = [] ∧ ∀ e ∈ x'.account.owed, e ∈ x'.account.encoded := by
  obtain ⟨hw, ha⟩ := x.step_world crc hs
  have hmem : .closed .drained ∈ es := mem_closings.mp (by simp [hclosings])
  obtain ⟨hstate, hafter, pre, post, hes, haccepted⟩ := drained_step hw hmem hok.empties
  rw [hafter] at ha
  have htr := (step_tracks h.tracks hs).tracks.encoded
  rw [ha, encodedMessages_append, h.tracks.encoded, List.append_right_eq_self] at htr
  obtain ⟨ns, hns⟩ := step_writes hw
  have hnone : ns = [] := by
    rw [hns.encoded (by simp [hclosings]), htr]
    rfl
  have hbytes := hns.bytes
  rw [hes, acceptedBytes_append, haccepted, hnone, List.flatMap_nil, List.append_nil,
    List.append_assoc, List.append_right_eq_self, List.append_eq_nil_iff] at hbytes
  refine ⟨hbytes.2, ?_⟩
  rw [ha]
  exact owed_encoded h (by simp [TcpConnection.rejects, hstate]) (by simp [hstate])

theorem step_finished {x x' : Tracked} {tr : List Event} {l : Label} {es : List Event}
    (h : Along crc x tr) (hfinished : Finished x tr) (hok : Graceful crc x l)
    (hs : x.step crc l = some (x', es)) : Finished x' (tr ++ es) := by
  intro hclosed hwhy
  obtain ⟨hw, -⟩ := x.step_world crc hs
  rw [closings_append] at hwhy
  rcases (step_shuts hw).closes with ⟨-, hstays⟩ | ⟨why, -, hone, -⟩
  · have hwas := hstays hclosed
    have hrej := rejects_of_closed hwas
    obtain ⟨hout, howed⟩ := hfinished hwas fun why hmem => hwhy why (List.mem_append_left _ hmem)
    obtain ⟨hsame, hencoded⟩ := (h.settled hrej).moves hrej (step_tracks h.tracks hs).moves
    rw [hsame, hencoded]
    exact ⟨step_output hrej hout hw, howed⟩
  · obtain rfl := hwhy why (by simp [hone])
    exact drained_finished h hok hs hone

/-! ## Main result -/

section Run

variable {callbacks : End → Callbacks} {highWaterMark : End → Nat} {p : ConnectionPair}
  {ls : List (End × Label)} {tr : List (End × Event)}
  (hrun : run (ConnectionPair.step crc) (.new callbacks highWaterMark) ls = some (p, tr))

include hrun

theorem pair_shutDown (e : End) : ShutDown (p.ends e).conn :=
  run_invariant (fun w => ShutDown w.conn) (fun _ _ _ _ h hs => step_shutDown h hs)
    (fun h => absurd h (by simp [World.new])) (pair_run hrun e)

theorem pair_tracked (e : End) :
    ∃ x, run (Tracked.step crc) ⟨World.new (callbacks e) (highWaterMark e), {}⟩ (part e ls) =
      some (x, part e tr) ∧ x.world = p.ends e := by
  refine run_lift Tracked.world (fun x l w es h => ?_) (pair_run hrun e)
  exact ⟨_, by rw [Tracked.step, h]; rfl, rfl⟩

end Run

theorem tracked_along {callbacks : Callbacks} {highWaterMark : Nat} {ls : List Label} {x : Tracked}
    {es : List Event}
    (hrun : run (Tracked.step crc) ⟨World.new callbacks highWaterMark, {}⟩ ls = some (x, es))
    (hok : RunOk (Tracked.step crc) (Graceful crc) ⟨World.new callbacks highWaterMark, {}⟩ ls) :
    Along crc x es ∧ Finished x es :=
  runOk_induction (fun y fs => Along crc y fs ∧ Finished y fs)
    (fun _ _ _ _ _ h hl hs => ⟨step_along h.1 hl hs, step_finished h.1 h.2 hl hs⟩) []
    ⟨along_new _ _, fun hclosed => absurd hclosed (by simp [World.new])⟩ hok hrun

/-- An end that sees that nothing follows, in a round that reads nothing else, was given before
    everything that the other end has encoded, in order, and with it every message whose `send` had
    returned there in front of `shutdown`. The other end closes, if it does, only by a graceful
    close, and meets the condition of one. -/
theorem graceful_end (crc : Bytes → UInt32) (callbacks : End → Callbacks)
    (highWaterMark : End → Nat) (ls : List (End × Label)) (p p' : ConnectionPair)
    (tr es : List (End × Event)) (e : End) (results : List (Except Errno Bytes))
    (hmessage : (callbacks e).message = true)
    (hrun : run (ConnectionPair.step crc) (.new callbacks highWaterMark) ls = some (p, tr))
    (hok : RunOk (Tracked.step crc) (Graceful crc)
      ⟨World.new (callbacks e.other) (highWaterMark e.other), {}⟩ (part e.other ls))
    (hwhy : ∀ why ∈ closings (part e.other tr), why = .drained)
    (hstep : p.step crc (e, .readable results) = some (p', es))
    (hend : (p.ends e).seesEnd (.readable results) = true) (hown : dataOf results = []) :
    ∃ x, run (Tracked.step crc) ⟨World.new (callbacks e.other) (highWaterMark e.other), {}⟩
        (part e.other ls) = some (x, part e.other tr) ∧
      deliveredMessages (part e tr) = x.account.encoded.filterMap (Sent.travels crc) ∧
      ∀ s ∈ x.account.owed, s ∈ x.account.encoded := by
  obtain ⟨x, hx, hworld⟩ := pair_tracked hrun e.other
  obtain ⟨halong, hfinished⟩ := tracked_along hx hok
  obtain ⟨-, -, -, hmay, -, -⟩ := Link.step_cases hstep
  obtain ⟨hwire, hended⟩ := hmay.2 hend
  have hopen : (p.ends e).conn.state ≠ .closed := by
    intro hclosed
    simp [World.seesEnd, World.reads, TcpConnection.isOpen, hclosed] at hend
  have hempty : p.wire e = [] := by
    have htakes : (p.ends e).takes (.readable results) = [] := by
      simp [World.takes, hown]
    exact hwire.symm.trans htakes
  -- the other end has written everything, closed or not
  have hsettled : x.world.conn.outBuffer.readable = [] ∧
      ∀ s ∈ x.account.owed, s ∈ x.account.encoded := by
    by_cases hclosed : x.world.conn.state = .closed
    · exact hfinished hclosed hwhy
    · have hshut : (p.ends e.other).conn.writeShut = true := by
        rcases Bool.or_eq_true_iff.mp hended with hshut | hstate
        · exact hshut
        · exact absurd (hworld ▸ by simpa using hstate) hclosed
      obtain ⟨hrej, hout⟩ := pair_shutDown hrun e.other hshut
      rw [← hworld] at hrej hout
      exact ⟨hout, owed_encoded halong hrej hclosed⟩
  have hencode : .encode ∉ closings (part e.other tr) := fun hmem =>
    absurd (hwhy _ hmem) (by simp)
  obtain ⟨ns, hns⟩ := pair_written hrun e.other
  obtain ⟨-, -, hall⟩ := pair_delivers hrun hmessage hns
  refine ⟨x, hx, ?_, hsettled.2⟩
  rw [hall hopen hempty (hworld ▸ hsettled.1), hns.encoded hencode, halong.tracks.encoded,
    tinyPBs_sealedAll]

/-- The near end drains, shuts down and closes; the far end reads the frame in a round of its
    own. -/
def drainedOver : List (End × Label) :=
  (drainedBefore ++ [Label.resume [.ok 27] false]).map (Prod.mk .near) ++
    [(.far, .call .connectEstablished), (.far, .readable [.ok goodFrame]), (.far, .returns)]

theorem graceful_end_drained :
    ∃ p tr p' es, run (ConnectionPair.step fun _ => 0) (.new pairCallbacks fun _ => 0) drainedOver =
        some (p, tr) ∧
      p.step (fun _ => 0) (.far, .readable [.ok []]) = some (p', es) ∧
      .drained ∈ closings (part .near tr) ∧
      deliveredMessages (part .far tr) = [sealed (fun _ => 0) { msgId := [49] }] ∧
      ∃ x : Tracked, deliveredMessages (part .far tr) =
          x.account.encoded.filterMap (Sent.travels fun _ => 0) ∧
        ∀ s ∈ x.account.owed, s ∈ x.account.encoded := by
  have hrun : ((run (ConnectionPair.step fun _ => 0) (.new pairCallbacks fun _ => 0)
      drainedOver).bind fun r =>
        (r.1.step (fun _ => 0) (.far, .readable [.ok []])).map fun _ =>
          decide (closings (part .near r.2) = [.drained] ∧
            (r.1.ends .far).seesEnd (.readable [.ok []]) = true ∧
            deliveredMessages (part .far r.2) = [sealed (fun _ => 0) { msgId := [49] }])) =
      some true := by decide +kernel
  obtain ⟨⟨p, tr⟩, hp, hlast⟩ := Option.bind_eq_some_iff.mp hrun
  obtain ⟨⟨p', es⟩, hs, heq⟩ := Option.map_eq_some_iff.mp hlast
  obtain ⟨hwhy, hend, hgiven⟩ := of_decide_eq_true heq
  obtain ⟨x, -, hall, howed⟩ := graceful_end (fun _ => 0) pairCallbacks (fun _ => 0) drainedOver
    p p' tr es .far [.ok []] rfl hp (by decide +kernel)
    (fun why hmem => List.mem_singleton.mp (hwhy ▸ hmem)) hs hend rfl
  exact ⟨p, tr, p', es, hp, hs, by simp [hwhy], hgiven, x, hall, howed⟩

end RocketRpc.Net
