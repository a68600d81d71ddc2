import RocketRpc.Coder.Contract
import RocketRpc.Net.RequestSync

/-
  Requests of `TcpClient::requestSync` and a server that echoes their ids.

  `EchoClient` is `SyncClient` with what the calls send and get: the frame of a request is
  written by `encode` on the loop, and the server answers it with a frame whose id is the one
  that it read. `EchoMove` is what a step can be, and by `Routed` the answer to a call has the id
  of its request, or the default one if the request has none.
-/

namespace RocketRpc.Net

open RocketRpc.Tcp RocketRpc.Coder Machine

/-- The message of a frame that is read alone. -/
def readFrame (crc : Bytes → UInt32) (frame : Bytes) : Option TinyPBProtocol :=
  match (decode crc ((TcpBuffer.new 0).append frame).2).1.messages with
  | [msg] => some msg
  | _ => none

/-- What `encode` appends to the output buffer for a request. -/
def writeFrame (crc : Bytes → UInt32) (req : TinyPBProtocol) (out : TcpBuffer) : Option Bytes :=
  let r := encode crc [.tinyPB req] out
  if r.1 then some (r.2.2.readable.drop out.readable.length) else none

/-- Where a request is, or the answer to it. -/
inductive Flight where
  | unsent
  | queued
  | toServer (frame : Bytes)
  | toClient (frame : Bytes)
  | over
  deriving DecidableEq, Repr

/-- A request after `encode`. -/
def sent (crc : Bytes → UInt32) (req : TinyPBProtocol) (out : TcpBuffer) : Flight :=
  match writeFrame crc req out with
  | some frame => .toServer frame
  | none => .over

/-- A message that the client gets, and the request that it answers. -/
structure Reply where
  answers : Option Nat := none
  msg : TinyPBProtocol := {}
  deriving DecidableEq, Repr

structure EchoClient where
  sync : SyncClient := {}
  flight : Nat → Flight := fun _ => .unsent
  /-- The message that `onMessage` is at. -/
  reply : Reply := {}
  /-- The local variable `response` of a call. -/
  response : Nat → Option Reply := fun _ => none

inductive EchoLabel where
  /-- A step of the callers and of the loop, except `SyncLabel.message`. -/
  | sync (l : SyncLabel)
  /-- The loop sends the request of call `k`; `out` is the output buffer. -/
  | encode (k : Nat) (out : TcpBuffer)
  /-- The server reads the request of call `k` and answers with a frame. -/
  | serve (k : Nat) (frame : Bytes)
  /-- The loop decodes the answer to call `k`, and looks up the callback. -/
  | decode (k : Nat)
  /-- The same for any other message. -/
  | message (msg : TinyPBProtocol)

inductive EchoEvent where
  /-- The answer to call `k` is decoded, and the wait of the call is not over. -/
  | decoded (k : Nat) (r : TinyPBProtocol) (inTime : Bool)
  | returned (k : Nat) (response : Option Reply)
  deriving DecidableEq, Repr

namespace EchoClient

/-- What a call that returns gives back. -/
def shows (w : EchoClient) : SyncEvent → List EchoEvent
  | .invoked _ _ => []
  | .returned k answered => [.returned k (if answered then w.response k else none)]

def sends (w : EchoClient) : SyncLabel → Nat → Flight
  | .goOn k =>
    if (w.sync.calls k).place = .send then Function.update w.flight k .queued else w.flight
  | _ => w.flight

def stores (w : EchoClient) : SyncLabel → Nat → Option Reply
  | .invoke =>
    match w.sync.cb with
    | some (.sync k) => Function.update w.response k (some w.reply)
    | _ => w.response
  | _ => w.response

variable (crc : Bytes → UInt32) (req : Nat → TinyPBProtocol)

/-- The answer to call `k` as the client decodes it. -/
def answer (w : EchoClient) (k : Nat) : Option TinyPBProtocol :=
  match w.flight k with
  | .toClient frame => readFrame crc frame
  | _ => none

def msgId (k : Nat) : Bytes := (req k).msgId

/-- `onMessage` is at a message. -/
def onMessage (w : EchoClient) (r : Reply) : Option EchoClient :=
  (w.sync.step (msgId req) (.message r.msg.msgId)).map fun s => { w with sync := s.1, reply := r }

def step (w : EchoClient) : EchoLabel → Option (EchoClient × List EchoEvent)
  | .sync (.message _) => none
  | .sync l =>
    (w.sync.step (msgId req) l).map fun s =>
      ({ w with sync := s.1, flight := w.sends l, response := w.stores l }, s.2.flatMap w.shows)
  | .encode k out =>
    if w.flight k = .queued then
      some ({ w with flight := Function.update w.flight k (sent crc (req k) out) }, [])
    else none
  | .serve k frame =>
    match w.flight k with
    | .toServer request =>
      match readFrame crc request, readFrame crc frame with
      | some m, some r =>
        if r.msgId = m.msgId then
          some ({ w with flight := Function.update w.flight k (.toClient frame) }, [])
        else none
      | _, _ => none
    | _ => none
  | .decode k =>
    match w.answer crc k with
    | some r =>
      (w.onMessage req ⟨some k, r⟩).map fun w' =>
        ({ w' with flight := Function.update w.flight k .over },
          [.decoded k r (decide ((w.sync.calls k).place = .waiting))])
    | none => none
  | .message msg => (w.onMessage req ⟨none, msg⟩).map fun w' => (w', [])

/-- The callback of call `k` is in the table. -/
def Awaits (w : EchoClient) (k : Nat) : Prop :=
  w.sync.readCallbacks (msgId req k) = some (.sync k)

/-- While the callback of call `k` is in the table, nobody else uses its id and the client is
    not stopped, and the wait does not end while the loop holds the callback. -/
def Undisturbed (k : Nat) (w : EchoClient) : EchoLabel → Prop
  | .sync (.goOn j) =>
    ((w.sync.calls j).place = .readMessage ∨ (w.sync.calls j).place = .timedOut) → j ≠ k →
      msgId req j = msgId req k → ¬ w.Awaits req k
  | .sync (.readMessage id) => id = msgId req k → ¬ w.Awaits req k
  | .sync (.cancelRead id) => id = msgId req k → ¬ w.Awaits req k
  | .sync .stop => ¬ w.Awaits req k
  | .sync (.timeout j) => j = k → w.sync.cb ≠ some (.sync k)
  | .decode j =>
    j ≠ k → (w.answer crc j).map TinyPBProtocol.msgId = some (msgId req k) → ¬ w.Awaits req k
  | .message msg => msg.msgId = msgId req k → ¬ w.Awaits req k
  | _ => True

instance (w : EchoClient) (k : Nat) : Decidable (w.Awaits req k) :=
  inferInstanceAs (Decidable (_ = _))

instance (k : Nat) (w : EchoClient) : DecidablePred (w.Undisturbed crc req k)
  | .sync (.goOn _) => inferInstanceAs (Decidable (_ → _ → _ → ¬ _))
  | .sync (.readMessage _) | .sync (.cancelRead _) | .message _ =>
    inferInstanceAs (Decidable (_ → ¬ _))
  | .sync .stop => inferInstanceAs (Decidable (¬ _))
  | .sync (.timeout _) => inferInstanceAs (Decidable (_ → _ ≠ _))
  | .decode _ => inferInstanceAs (Decidable (_ → _ → ¬ _))
  | .sync (.call _ _) | .sync (.message _) | .sync .invoke | .encode _ _ | .serve _ _ =>
    .isTrue trivial

end EchoClient

/-! ## Frames -/

variable {crc : Bytes → UInt32} {req : Nat → TinyPBProtocol}

/-- A frame that `encode` appends is read as the message that it filled in. -/
theorem readFrame_of_writeFrame {m : TinyPBProtocol} {out : TcpBuffer} {frame : Bytes}
    (h : writeFrame crc m out = some frame) : readFrame crc frame = some (sealed crc m) := by
  unfold writeFrame at h
  dsimp only at h
  split at h
  · rename_i henc
    obtain ⟨-, hbytes⟩ := encode_ok henc
    have hall : ∀ m' ∈ [m], (sealed crc m').WellFormed crc := encode_wellFormed henc
    have hwf := hall m List.mem_cons_self
    have hframe : frame = frames [.tinyPB (sealed crc m)] := by
      rw [← Option.some.inj h, hbytes, List.drop_left]
      rfl
    have hsize : frame.length = (sealed crc m).packetSize := by
      rw [hframe, frames, frames, List.append_nil, TinyPBProtocol.length_frame]
    have happ : ((TcpBuffer.new 0).append frame).1 = true := by
      refine TcpBuffer.append_of_le ?_
      have hlarge : kPrependSize + (TcpBuffer.new 0).readAble + kMaxPacketSize ≤
          kMaxBufferSize := by decide
      have hle := hwf.size_le
      omega
    have hread : ((TcpBuffer.new 0).append frame).2.readable = frame := by
      rw [TcpBuffer.append_readable happ]
      rfl
    have hmessages : (decode crc ((TcpBuffer.new 0).append frame).2).1.messages =
        [sealed crc m] := by
      have hscan : ∀ m' ∈ [sealed crc m], m'.WellFormed crc := by
        intro m' hm'
        rw [List.mem_singleton.mp hm']
        exact hwf
      rw [(decode_spec crc _).1, hread, hframe]
      exact (scan_frames hscan).1
    rw [readFrame, hmessages]
  · exact absurd h (by simp)

/-! ## Steps -/

/-- The client after `onMessage` found what it found. -/
def EchoClient.found (w : EchoClient) (r : Reply) : EchoClient :=
  { w with
    sync := { w.sync with
      cb := w.sync.readCallbacks r.msg.msgId
      readCallbacks := Function.update w.sync.readCallbacks r.msg.msgId none }
    reply := r }

/-- What a step can be. -/
inductive EchoMove (crc : Bytes → UInt32) (req : Nat → TinyPBProtocol) (w : EchoClient) :
    EchoLabel → EchoClient → List EchoEvent → Prop
  | sync {l : SyncLabel} {s : SyncClient} {es : List SyncEvent} :
      SyncMove (EchoClient.msgId req) w.sync l s es → (∀ id, l ≠ .message id) →
      EchoMove crc req w (.sync l)
        { w with sync := s, flight := w.sends l, response := w.stores l } (es.flatMap w.shows)
  | encode (k : Nat) (out : TcpBuffer) : w.flight k = .queued →
      EchoMove crc req w (.encode k out)
        { w with flight := Function.update w.flight k (sent crc (req k) out) } []
  | serve (k : Nat) (frame request : Bytes) (m r : TinyPBProtocol) :
      w.flight k = .toServer request → readFrame crc request = some m →
      readFrame crc frame = some r → r.msgId = m.msgId →
      EchoMove crc req w (.serve k frame)
        { w with flight := Function.update w.flight k (.toClient frame) } []
  | decode (k : Nat) (r : TinyPBProtocol) : w.answer crc k = some r → w.sync.cb = none →
      EchoMove crc req w (.decode k)
        { w.found ⟨some k, r⟩ with flight := Function.update w.flight k .over }
        [.decoded k r (decide ((w.sync.calls k).place = .waiting))]
  | message (msg : TinyPBProtocol) : w.sync.cb = none →
      EchoMove crc req w (.message msg) (w.found ⟨none, msg⟩) []

theorem EchoClient.sends_cases (w : EchoClient) (l : SyncLabel) :
    w.sends l = w.flight ∨ ∃ j, l = .goOn j ∧ (w.sync.calls j).place = .send ∧
      w.sends l = Function.update w.flight j .queued := by
  cases l with
  | goOn j =>
    by_cases hplace : (w.sync.calls j).place = .send
    · exact Or.inr ⟨j, rfl, hplace, if_pos hplace⟩
    · exact Or.inl (if_neg hplace)
  | _ => exact Or.inl rfl

theorem onMessage_eq_some {w w' : EchoClient} {r : Reply} (h : w.onMessage req r = some w') :
    w.sync.cb = none ∧ w' = w.found r := by
  obtain ⟨⟨s, es⟩, hs, heq⟩ := Option.map_eq_some_iff.mp h
  cases step_syncMove hs with
  | message id hcb => exact ⟨hcb, heq.symm⟩

theorem step_echoMove {w w' : EchoClient} {l : EchoLabel} {es : List EchoEvent}
    (hstep : w.step crc req l = some (w', es)) : EchoMove crc req w l w' es := by
  cases l with
  | sync l =>
    have hsync : (∀ id, l ≠ .message id) → (w.sync.step (EchoClient.msgId req) l).map (fun s =>
        (({ w with sync := s.1, flight := w.sends l, response := w.stores l } : EchoClient),
          s.2.flatMap w.shows)) = some (w', es) → EchoMove crc req w (.sync l) w' es := by
      intro hl hmap
      obtain ⟨⟨s, es'⟩, hs, heq⟩ := Option.map_eq_some_iff.mp hmap
      obtain ⟨rfl, rfl⟩ := Prod.mk.inj heq
      exact .sync (step_syncMove hs) hl
    cases l with
    | message id => exact absurd hstep (by simp [EchoClient.step])
    | call | goOn | timeout | invoke | readMessage | cancelRead | stop =>
      exact hsync (by simp) hstep
  | encode k out =>
    simp only [EchoClient.step] at hstep
    split at hstep
    · rename_i hqueued
      obtain ⟨rfl, rfl⟩ := Prod.mk.inj (Option.some.inj hstep)
      exact .encode k out hqueued
    · exact absurd hstep (by simp)
  | serve k frame =>
    simp only [EchoClient.step] at hstep
    split at hstep
    · rename_i request hflight
      split at hstep
      · rename_i m r hm hr
        split at hstep
        · rename_i hid
          obtain ⟨rfl, rfl⟩ := Prod.mk.inj (Option.some.inj hstep)
          exact .serve k frame request m r hflight hm hr hid
        · exact absurd hstep (by simp)
      · exact absurd hstep (by simp)
    · exact absurd hstep (by simp)
  | decode k =>
    simp only [EchoClient.step] at hstep
    split at hstep
    · rename_i r hr
      obtain ⟨v, hv, heq⟩ := Option.map_eq_some_iff.mp hstep
      obtain ⟨rfl, rfl⟩ := Prod.mk.inj heq
      obtain ⟨hcb, rfl⟩ := onMessage_eq_some hv
      exact .decode k r hr hcb
    · exact absurd hstep (by simp)
  | message msg =>
    simp only [EchoClient.step] at hstep
    obtain ⟨v, hv, heq⟩ := Option.map_eq_some_iff.mp hstep
    obtain ⟨rfl, rfl⟩ := Prod.mk.inj heq
    obtain ⟨hcb, rfl⟩ := onMessage_eq_some hv
    exact .message msg hcb

/-! ## Ids -/

/-- An entry of a call that is new in a table. -/
theorem update_entry {table : Bytes → Option ReadCallback} {id id' : Bytes}
    {cb : Option ReadCallback} {k : Nat}
    (h : Function.update table id' cb id = some (.sync k)) :
    table id = some (.sync k) ∨ id = id' ∧ cb = some (.sync k) := by
  by_cases hid : id = id'
  · subst hid
    rw [Function.update_self] at h
    exact Or.inr ⟨rfl, h⟩
  · rw [Function.update_of_ne hid] at h
    exact Or.inl h

/-- An entry of a call that is new is under the id of the call. -/
theorem SyncMove.entry {msgId : Nat → Bytes} {w w' : SyncClient} {l : SyncLabel}
    {es : List SyncEvent} {id : Bytes} {k : Nat} (h : SyncMove msgId w l w' es)
    (hk : w'.readCallbacks id = some (.sync k)) :
    w.readCallbacks id = some (.sync k) ∨ id = msgId k := by
  cases h with
  | registers j hplace =>
    refine (update_entry hk).imp_right fun ⟨hid, heq⟩ => ?_
    rw [hid, ReadCallback.sync.inj (Option.some.inj heq)]
  | cancels | message | cancelRead | readMessage =>
    exact (update_entry hk).imp_right fun ⟨_, heq⟩ => absurd heq (by simp)
  | stop => exact absurd hk (by simp)
  | begins | refused | sends | answered | givesUp | timesOut | invoked | invokedOther =>
    exact Or.inl hk

/-- A callback is in the table under the id of its call. What goes to the server and comes back
    has the id of its request, or the default one if that has none. -/
structure Routed (crc : Bytes → UInt32) (req : Nat → TinyPBProtocol) (w : EchoClient) : Prop where
  table : ∀ id k, w.sync.readCallbacks id = some (.sync k) → id = (req k).msgId
  request : ∀ k frame m, w.flight k = .toServer frame → readFrame crc frame = some m →
    m.msgId = (withMsgId (req k)).msgId
  answer : ∀ k r, w.answer crc k = some r → r.msgId = (withMsgId (req k)).msgId

theorem sent_cases (crc : Bytes → UInt32) (m : TinyPBProtocol) (out : TcpBuffer) :
    sent crc m out = .over ∨
      ∃ frame, sent crc m out = .toServer frame ∧ readFrame crc frame = some (sealed crc m) := by
  unfold sent
  split
  · rename_i frame hwrite
    exact Or.inr ⟨frame, rfl, readFrame_of_writeFrame hwrite⟩
  · exact Or.inl rfl

section

variable {w w' : EchoClient}

/-- The frames of one request go on. -/
theorem Routed.flies {k : Nat} {f : Flight} (h : Routed crc req w)
    (htable : ∀ id j, w'.sync.readCallbacks id = some (.sync j) → id = (req j).msgId)
    (hflight : w'.flight = Function.update w.flight k f)
    (hrequest : ∀ frame m, f = .toServer frame → readFrame crc frame = some m →
      m.msgId = (withMsgId (req k)).msgId)
    (hanswer : ∀ frame r, f = .toClient frame → readFrame crc frame = some r →
      r.msgId = (withMsgId (req k)).msgId) : Routed crc req w' := by
  have hat : ∀ j, w'.flight j = if j = k then f else w.flight j := by
    intro j
    rw [hflight, Function.update_apply]
  refine ⟨htable, fun j frame m hj hm => ?_, fun j r hj => ?_⟩
  · rw [hat] at hj
    split at hj
    · rename_i hjk
      rw [hjk]
      exact hrequest frame m hj hm
    · exact h.request j frame m hj hm
  · by_cases hjk : j = k
    · rw [EchoClient.answer, hat, if_pos hjk] at hj
      split at hj
      · rename_i frame
        rw [hjk]
        exact hanswer frame r rfl hj
      · exact absurd hj (by simp)
    · refine h.answer j r ?_
      rw [EchoClient.answer, hat, if_neg hjk] at hj
      exact hj

theorem Routed.found (h : Routed crc req w) (r : Reply) (id : Bytes) (j : Nat)
    (hj : (w.found r).sync.readCallbacks id = some (.sync j)) : id = (req j).msgId := by
  rcases update_entry hj with hold | ⟨-, heq⟩
  · exact h.table id j hold
  · exact absurd heq (by simp)

theorem EchoMove.routed {l : EchoLabel} {es : List EchoEvent} (hm : EchoMove crc req w l w' es)
    (h : Routed crc req w) : Routed crc req w' := by
  cases hm with
  | @sync l s es hs hl =>
    have htable : ∀ id j, s.readCallbacks id = some (.sync j) → id = (req j).msgId := by
      intro id j hj
      exact (hs.entry hj).elim (h.table id j) fun hid => hid
    rcases w.sends_cases l with hsame | ⟨j, -, -, hsends⟩
    · refine ⟨htable, fun k frame m hk => ?_, fun k r hk => ?_⟩
      · rw [hsame] at hk
        exact h.request k frame m hk
      · rw [EchoClient.answer, hsame] at hk
        exact h.answer k r hk
    · exact h.flies htable hsends (fun frame m hf => absurd hf (by simp))
        (fun frame m hf => absurd hf (by simp))
  | encode k out hqueued =>
    rcases sent_cases crc (req k) out with hsent | ⟨frame, hsent, hread⟩
    · rw [hsent]
      exact h.flies h.table rfl (fun frame m hf => absurd hf (by simp))
        (fun frame r hf => absurd hf (by simp))
    · rw [hsent]
      refine h.flies h.table rfl (fun frame' m hf hm => ?_) (fun frame r hf => absurd hf (by simp))
      rw [← Flight.toServer.inj hf, hread] at hm
      rw [← Option.some.inj hm]
      rfl
  | serve k frame request m r hflight hrequest hframe hid =>
    refine h.flies h.table rfl (fun frame m hf => absurd hf (by simp)) fun frame' r' hf hr => ?_
    obtain rfl := Flight.toClient.inj hf
    rw [hframe] at hr
    rw [← Option.some.inj hr, hid]
    exact h.request k request m hflight hrequest
  | decode k r hr hcb =>
    exact h.flies (h.found _) rfl (fun frame m hf => absurd hf (by simp))
      (fun frame m hf => absurd hf (by simp))
  | message msg hcb => exact ⟨h.found _, h.request, h.answer⟩

end

end RocketRpc.Net
