import RocketRpc.Net.AccountSync
import RocketRpc.Rpc.Serving

/-
  Work in flight and a shutdown of its connection.

  The closure of a request takes its request out of the count and then sends its response.
  `send` turns the response away once the connection is half closed, and a drain drops it
  then, so the work finishes only if its response is sent and drained before: `InTime` is
  this condition. Under it every response is on its way or encoded.
-/

namespace RocketRpc.Rpc

open RocketRpc.Tcp RocketRpc.Coder Machine

variable {g : Registry} {c : ConnId} {crc : Bytes → UInt32}

/-- What the dispatcher asks of the connection is no step of a drain. -/
theorem onConnection_not_drain {thread : Option Net.ThreadId} {e : DispatchEvent} {l : Net.Label}
    (h : onConnection c thread e = some l) (w : Net.World) :
    Net.pops w l = false ∧ Net.ends w l = false := by
  have hthread : ∀ call foreign, Net.pops w (onThread thread call foreign) = false ∧
      Net.ends w (onThread thread call foreign) = false := by
    intro call foreign
    cases thread <;> exact ⟨rfl, rfl⟩
  cases e with
  | incrInFlight d c' | decrInFlight d c' | sent d c' message =>
    obtain ⟨-, heq⟩ := Option.ite_none_right_eq_some.mp h
    obtain rfl := Option.some.inj heq
    exact hthread _ _

/-- The steps of the connection that the dispatcher asks for lose no watched message. -/
theorem run_watched {P : Net.Sent → Prop} {thread : Option Net.ThreadId}
    {ds : List DispatchEvent} {x x' : Net.Tracked} {tr es : List Net.Event}
    (h : Net.Tracks crc x tr) (hw : Net.Watched P x.world x.account)
    (hrun : run (Net.Tracked.step crc) x (ds.filterMap (onConnection c thread)) = some (x', es)) :
    Net.Tracks crc x' (tr ++ es) ∧ Net.Watched P x'.world x'.account := by
  induction ds generalizing x tr es with
  | nil =>
    obtain ⟨rfl, rfl⟩ : x = x' ∧ [] = es := by simpa using hrun
    rw [List.append_nil]
    exact ⟨h, hw⟩
  | cons d ds ih =>
    cases hd : onConnection c thread d with
    | none =>
      rw [List.filterMap_cons_none hd] at hrun
      exact ih h hw hrun
    | some l =>
      rw [List.filterMap_cons_some hd] at hrun
      obtain ⟨x₁, es₁, es₂, hs, hrun', rfl⟩ := run_cons_eq_some.mp hrun
      obtain ⟨hpops, hends⟩ := onConnection_not_drain hd x.world
      have hstep := Net.step_tracks h hs
      rw [← List.append_assoc]
      exact ih hstep.tracks (hw.moves hstep.moves (fun hp => absurd (hpops.symm.trans hp) (by simp))
        fun he => absurd (hends.symm.trans he) (by simp)) hrun'

/-! ## Sending a response -/

/-- A `send` that lets its message pass: the message is at its `push`, or encoded. -/
theorem send_watched {P : Net.Sent → Prop} {thread : Option Net.ThreadId}
    {message : AbstractProtocol} {x x' : Net.Tracked} {tr es : List Net.Event}
    (h : Net.Tracks crc x tr) (hw : Net.Watched P x.world x.account)
    (hrej : x.world.conn.rejects = false)
    (henc : thread = none → (encode crc [message] x.world.conn.outBuffer).1 = true)
    (hs : x.step crc (onThread thread (.send (some message)) (.send (some message))) =
      some (x', es)) :
    Net.Watched (fun e => P e ∨ e = ⟨x.account.next, message⟩) x'.world x'.account := by
  have hold : Net.Watched P x'.world x'.account := by
    have hstep := Net.step_tracks h hs
    refine hw.moves hstep.moves (fun hp => ?_) fun he => ?_
    · cases thread <;> exact absurd hp (by simp [Net.pops, onThread])
    · cases thread <;> exact absurd he (by simp [Net.ends, onThread])
  intro e he
  rcases he with he | rfl
  · exact hold e he
  obtain ⟨hworld, haccount⟩ := x.step_world crc hs
  cases thread with
  | none =>
    right
    have hsend : x'.account = x.account.sendInLoop crc x.world message := by
      rw [haccount]
      simp [onThread, Net.Account.after, hrej]
    rw [hsend, Net.sendInLoop_eq]
    refine Or.inr (Or.inr ?_)
    have hok : Net.Account.encodes crc x.world [⟨x.account.next, message⟩] = true := by
      simp [Net.Account.encodes, hrej, henc rfl]
    dsimp only
    rw [if_pos hok]
    exact List.mem_append_right _ (List.mem_singleton_self _)
  | some t =>
    left
    simp only [onThread, Net.World.step] at hworld
    obtain ⟨w', hforeign, heq⟩ := Option.map_eq_some_iff.mp hworld
    obtain ⟨hw', -⟩ := Prod.mk.inj heq
    have hidle : x.world.senders t = .idle := by
      cases ht : x.world.senders t with
      | idle => rfl
      | _ => exact absurd (ht ▸ hforeign) (by simp [Net.World.foreign])
    rw [hidle] at hforeign
    simp only [Net.World.foreign, hrej, Bool.false_eq_true, if_false] at hforeign
    obtain rfl := Option.some.inj hforeign
    have henter : x'.account = x.account.enter t message := by
      rw [haccount]
      simp [onThread, Net.Account.after, Net.Account.foreign, hidle, hrej]
    refine ⟨t, message, ?_, ?_⟩
    · rw [henter, Net.Account.entry_enter, if_pos rfl]
    · rw [← hw']
      exact Function.update_self t _ x.world.senders

/-- The closure of an accepted request sends one response. -/
theorem replies_events {x : Serving} {l : DispatchLabel} {message : TinyPBProtocol}
    {s' : RpcDispatcher} {es : List DispatchEvent} (h : x.replies c l = some message)
    (hs : x.dispatcher.step g l = some (s', es)) : ∃ d, es = [.sent d c message] := by
  cases l with
  | reply d ok data =>
    obtain ⟨r, hd, hr⟩ := Option.bind_eq_some_iff.mp h
    obtain ⟨⟨-, hconn⟩, hmessage⟩ := Option.ite_none_right_eq_some.mp hr
    obtain ⟨r', hd', hr'⟩ := Option.bind_eq_some_iff.mp hs
    obtain rfl := Option.some.inj (hd.symm.trans hd')
    obtain ⟨-, heq⟩ := Option.ite_none_right_eq_some.mp hr'
    obtain ⟨-, rfl⟩ := Prod.mk.inj (Option.some.inj heq)
    exact ⟨d, by rw [hconn, Option.some.inj hmessage]⟩
  | _ => exact absurd h (by simp [Serving.replies])

/-! ## The condition -/

/-- The condition on a step: the closure of an accepted request finds the connection open to
    messages, a drain pops its response while the connection is established, and the response
    can be encoded. -/
structure InTime (c : ConnId) (crc : Bytes → UInt32) (x : Serving) (l : ServingLabel) : Prop where
  sends : ∀ thread d, l = .dispatcher thread d → ∀ message ∈ x.replies c d,
    x.tracked.world.conn.rejects = false ∧ (thread = none →
      (encode crc [.tinyPB message] x.tracked.world.conn.outBuffer).1 = true)
  pops : ∀ l', l = .connection l' → Net.pops x.tracked.world l' = true →
    ∀ e ∈ x.tracked.account.queue.head?, some e ∈ x.responses →
      x.tracked.world.conn.state = .connected
  ends : ∀ l', l = .connection l' → Net.ends x.tracked.world l' = true →
    ∀ e ∈ x.tracked.account.batch, some e ∈ x.responses →
      (encode crc (x.tracked.account.batch.map Net.Sent.message)
        x.tracked.world.conn.outBuffer).1 = true

instance (c : ConnId) (crc : Bytes → UInt32) (x : Serving) : DecidablePred (InTime c crc x)
  | .connection l =>
    decidable_of_iff
      ((Net.pops x.tracked.world l = true →
        ∀ e ∈ x.tracked.account.queue.head?, some e ∈ x.responses →
          x.tracked.world.conn.state = .connected) ∧
        (Net.ends x.tracked.world l = true →
          ∀ e ∈ x.tracked.account.batch, some e ∈ x.responses →
            (encode crc (x.tracked.account.batch.map Net.Sent.message)
              x.tracked.world.conn.outBuffer).1 = true))
      ⟨fun h => ⟨by simp, fun _ heq => ServingLabel.connection.inj heq ▸ h.1,
        fun _ heq => ServingLabel.connection.inj heq ▸ h.2⟩,
        fun h => ⟨h.pops l rfl, h.ends l rfl⟩⟩
  | .dispatcher thread d =>
    decidable_of_iff
      (∀ message ∈ x.replies c d, x.tracked.world.conn.rejects = false ∧ (thread = none →
        (encode crc [.tinyPB message] x.tracked.world.conn.outBuffer).1 = true))
      ⟨fun h => ⟨fun thread' d' heq => by
        obtain ⟨rfl, rfl⟩ := ServingLabel.dispatcher.inj heq
        exact h, by simp, by simp⟩, fun h => h.sends thread d rfl⟩

/-! ## Runs -/

/-- Every response is on its way or encoded. -/
structure Finishing (crc : Bytes → UInt32) (x : Serving) (tr : List Net.Event) : Prop where
  tracks : Net.Tracks crc x.tracked tr
  passed : ∀ o ∈ x.responses, ∃ e, o = some e
  watched : Net.Watched (fun e => some e ∈ x.responses) x.tracked.world x.tracked.account

theorem dispatcher_finishing {x x' : Serving} {thread : Option Net.ThreadId} {l : DispatchLabel}
    {tr es : List Net.Event} (h : Finishing crc x tr) (hok : InTime c crc x (.dispatcher thread l))
    (hs : x.step g c crc (.dispatcher thread l) = some (x', es)) : Finishing crc x' (tr ++ es) := by
  obtain ⟨⟨s', ds⟩, hd, hmap⟩ := Option.bind_eq_some_iff.mp hs
  obtain ⟨⟨y, es'⟩, hrun, heq⟩ := Option.map_eq_some_iff.mp hmap
  obtain ⟨rfl, rfl⟩ := Prod.mk.inj heq
  obtain ⟨htracks, hwatched⟩ := run_watched h.tracks h.watched hrun
  cases hreply : x.replies c l with
  | none =>
    have hsame : x.respond c l = x.responses := by simp [Serving.respond, hreply]
    exact ⟨htracks, fun o ho => h.passed o (hsame ▸ ho), fun e he => hwatched e (hsame ▸ he)⟩
  | some message =>
    obtain ⟨hrej, henc⟩ := hok.sends thread l rfl message hreply
    obtain ⟨d, rfl⟩ := replies_events hreply hd
    have hsame : x.respond c l =
        x.responses ++ [some ⟨x.tracked.account.next, .tinyPB message⟩] := by
      simp [Serving.respond, hreply, hrej]
    have hlabel : [DispatchEvent.sent d c message].filterMap (onConnection c thread) =
        [onThread thread (.send (some (.tinyPB message))) (.send (some (.tinyPB message)))] := by
      simp [onConnection]
    rw [hlabel] at hrun
    obtain ⟨z, es₁, es₂, hz, hnil, rfl⟩ := run_cons_eq_some.mp hrun
    obtain ⟨rfl, rfl⟩ : z = y ∧ [] = es₂ := by simpa using hnil
    have hnew := send_watched h.tracks h.watched hrej henc hz
    refine ⟨htracks, fun o ho => ?_, fun e he => ?_⟩
    · rcases List.mem_append.mp (hsame ▸ ho) with ho | ho
      · exact h.passed o ho
      · exact ⟨_, List.mem_singleton.mp ho⟩
    · refine hnew e ?_
      rcases List.mem_append.mp (hsame ▸ he) with he | he
      · exact Or.inl he
      · exact Or.inr (Option.some.inj (List.mem_singleton.mp he))

/-- One step that meets the condition. -/
theorem step_finishing {x x' : Serving} {l : ServingLabel} {tr es : List Net.Event}
    (h : Finishing crc x tr) (hok : InTime c crc x l) (hs : x.step g c crc l = some (x', es)) :
    Finishing crc x' (tr ++ es) := by
  cases l with
  | dispatcher thread l => exact dispatcher_finishing h hok hs
  | connection l =>
    obtain ⟨⟨y, es'⟩, hy, heq⟩ := Option.map_eq_some_iff.mp hs
    obtain ⟨rfl, rfl⟩ := Prod.mk.inj heq
    have hstep := Net.step_tracks h.tracks hy
    refine ⟨hstep.tracks, h.passed, h.watched.moves hstep.moves (fun hp => hok.pops l rfl hp)
      fun hends e he hmem => ?_⟩
    have hconn := h.tracks.round.connected (List.ne_nil_of_mem he)
    simp [Net.Account.encodes, Net.TcpConnection.rejects, hconn, hok.ends l rfl hends e he hmem]

/-- In a run whose steps meet the condition, every response that a closure of an accepted
    request passed to `send` got past its check and is on its way to the output buffer or in
    it; when no thread is in `send`, the queue is empty and the loop is idle, it is encoded. -/
theorem in_flight_work (g : Registry) (c : ConnId) (crc : Bytes → UInt32)
    (workerThreads maxPendingTasks : Nat) (callbacks : Net.Callbacks) (highWaterMark : Nat)
    (ls : List ServingLabel) (x : Serving) (tr : List Net.Event)
    (hok : RunOk (Serving.step g c crc) (InTime c crc)
      (.new workerThreads maxPendingTasks callbacks highWaterMark) ls)
    (hrun : run (Serving.step g c crc)
      (.new workerThreads maxPendingTasks callbacks highWaterMark) ls = some (x, tr)) :
    (∀ o ∈ x.responses, ∃ e, o = some e ∧
        ((∃ t m, x.tracked.account.entry t = some e ∧
            x.tracked.world.senders t = .pushing m) ∨
          e ∈ x.tracked.account.queue ∨ e ∈ x.tracked.account.batch ∨
            e ∈ x.tracked.account.encoded)) ∧
      Net.encodedMessages tr = sealedAll crc (x.tracked.account.encoded.map Net.Sent.message) ∧
      ((∀ t, x.tracked.world.senders t = .idle) → x.tracked.world.conn.writeQueue = [] →
        x.tracked.world.stack = [] →
          ∀ o ∈ x.responses, ∃ e, o = some e ∧ e ∈ x.tracked.account.encoded) := by
  have hnew : Finishing crc (.new workerThreads maxPendingTasks callbacks highWaterMark) [] :=
    ⟨Net.tracks_new rfl rfl fun _ => rfl, by simp [Serving.new],
      fun e he => absurd he (by simp [Serving.new])⟩
  have h : Finishing crc x tr := runOk_induction (Finishing crc)
    (fun _ _ _ _ _ h hok hs => step_finishing h hok hs) [] hnew hok hrun
  have hway : ∀ o ∈ x.responses, ∃ e, o = some e ∧
      ((∃ t m, x.tracked.account.entry t = some e ∧ x.tracked.world.senders t = .pushing m) ∨
        x.tracked.account.Holds e) := by
    intro o ho
    obtain ⟨e, rfl⟩ := h.passed o ho
    exact ⟨e, rfl, h.watched e ho⟩
  refine ⟨hway, h.tracks.encoded, fun hidle hqueue hstack o ho => ?_⟩
  obtain ⟨e, rfl, ⟨t, m, -, ht⟩ | hq | hb | henc⟩ := hway o ho
  · exact absurd ((hidle t).symm.trans ht) (by simp)
  · have hnil := h.tracks.sync.queue
    rw [hqueue, List.map_nil, List.map_eq_nil_iff] at hnil
    exact absurd hq (by simp [hnil])
  · have hnil := (h.tracks.round.nothing (by rw [hstack]; rfl)).1
    exact absurd hb (by simp [hnil])
  · exact ⟨e, rfl, henc⟩

/-- One service, whose methods run on the loop. -/
def inlineService : Registry :=
  Registry.registerService {} ⟨text "s", fun _ => some ⟨text "s.m", fun _ => true⟩⟩

/-- A request is handed to its service on an established connection. -/
def handed : List ServingLabel :=
  [.connection (.call .connectEstablished),
    .dispatcher none (.dispatch 0 (.tinyPB { msgId := [49], methodName := text "s.m" })
      (.tinyPB {})),
    .dispatcher none (.goOn 0), .dispatcher none (.goOn 0), .dispatcher none (.goOn 0),
    .dispatcher none (.goOn 0)]

/-- Another thread runs the closure, and the drain encodes the response; the connection is
    shut down behind it. -/
def finishedBefore : List ServingLabel :=
  handed ++ [.dispatcher (some 1) (.run 0), .dispatcher (some 1) (.reply 0 true [1])] ++
    List.replicate 4 (.connection (.foreign 1 .goOn)) ++ [.connection .task] ++
    List.replicate 7 (.connection (.resume [] true)) ++ [.connection (.call .shutdown)]

theorem in_flight_work_finished_before :
    ∃ x tr e, run (Serving.step inlineService 0 fun _ => 0)
        (.new 1 1 ⟨true, false, true, false, false⟩ 0) finishedBefore = some (x, tr) ∧
      x.responses = [some e] ∧
      ((∃ t m, x.tracked.account.entry t = some e ∧ x.tracked.world.senders t = .pushing m) ∨
        e ∈ x.tracked.account.queue ∨ e ∈ x.tracked.account.batch ∨
          e ∈ x.tracked.account.encoded) := by
  have hrun : (run (Serving.step inlineService 0 fun _ => 0)
      (.new 1 1 ⟨true, false, true, false, false⟩ 0) finishedBefore).map
      (fun r => decide (r.1.responses.length = 1)) = some true := by
    decide +kernel
  obtain ⟨⟨x, tr⟩, hx, heq⟩ := Option.map_eq_some_iff.mp hrun
  obtain ⟨o, ho⟩ := List.length_eq_one_iff.mp (of_decide_eq_true heq)
  have hwork := in_flight_work inlineService 0 (fun _ => 0) 1 1 _ 0 finishedBefore x tr
    (by decide +kernel) hx
  have ho : x.responses = [o] := ho
  obtain ⟨e, rfl, hway⟩ := hwork.1 o (ho ▸ List.mem_singleton_self o)
  exact ⟨x, tr, e, hx, ho, hway⟩

/-- The connection is shut down between the request and its closure: `send` turns the response
    away, with no error and nothing closed. -/
theorem in_flight_work_turned_away :
    ∃ ls x tr, run (Serving.step inlineService 0 fun _ => 0)
        (.new 1 1 ⟨true, false, true, false, false⟩ 0) ls = some (x, tr) ∧
      x.tracked.world.conn.state = .halfClosing ∧ none ∈ x.responses := by
  have hrun : (run (Serving.step inlineService 0 fun _ => 0)
      (.new 1 1 ⟨true, false, true, false, false⟩ 0)
      (handed ++ [.connection (.call .shutdown), .dispatcher none (.run 0),
        .dispatcher none (.reply 0 true [1])])).map
      (fun r => decide (r.1.tracked.world.conn.state = .halfClosing ∧ none ∈ r.1.responses)) =
      some true := by
    decide +kernel
  obtain ⟨⟨x, tr⟩, hx, heq⟩ := Option.map_eq_some_iff.mp hrun
  exact ⟨_, x, tr, hx, of_decide_eq_true heq⟩

end RocketRpc.Rpc
