import RocketRpc.Coder.Contract
import RocketRpc.Rpc.FinisherWrites
import RocketRpc.Rpc.RpcDispatcher

/-
  From the outcome of a service method to the controller of the client.

  `ServiceCalls` is the dispatcher of a server with the controllers that `invokeService` makes
  for its services. A response goes from there, over the wire (`Receives`), into the read
  callback of a call (`RpcChannel`). The closure of `invokeService` owns the controller of the
  service and does not read it: `propagates_iff` says for which outcomes the client's
  controller still agrees with it.
-/

namespace RocketRpc.Rpc

open RocketRpc.Tcp RocketRpc.Coder Machine World StreamScan

/-! ## The controller of a service -/

/-- A call on an `RpcController`. -/
inductive ControllerCall where
  | reset
  | startCancel
  | setFailed (reason : Bytes)
  | setError (errorCode : Int32) (errorInfo : Bytes)
  | setMsgId (msgId : Bytes)
  | setTimeout (timeout : Int)
  | setFinished (value : Bool)
  deriving DecidableEq, Repr

def RpcController.call (c : RpcController) : ControllerCall → RpcController
  | .reset => {}
  | .startCancel => { c with isCancled := true, isFailed := true, isFinished := true }
  | .setFailed reason => { c with errorInfo := reason, isFailed := true }
  | .setError errorCode errorInfo => { c with errorCode, errorInfo, isFailed := true }
  | .setMsgId msgId => { c with msgId }
  | .setTimeout timeout => { c with timeout }
  | .setFinished value => { c with isFinished := value }

structure ServiceCalls where
  dispatcher : RpcDispatcher
  /-- What the service that handles a request has called on its controller. -/
  calls : Nat → List ControllerCall := fun _ => []

inductive ServiceLabel where
  | dispatcher (l : DispatchLabel)
  /-- The service that handles request `d` uses its controller, before it runs `done`. -/
  | service (d : Nat) (call : ControllerCall)
  deriving DecidableEq, Repr

inductive ServiceEvent where
  | dispatcher (e : DispatchEvent)
  /-- The closure of request `d` sent `reply`, when the controller of the service was
      `controller`. -/
  | replied (d : Nat) (controller : RpcController) (ok : Bool) (data : Bytes)
    (reply : TinyPBProtocol)
  deriving DecidableEq, Repr

namespace ServiceCalls

variable (g : Registry)

def new (workerThreads maxPendingTasks : Nat) : ServiceCalls :=
  { dispatcher := .new workerThreads maxPendingTasks }

/-- `controller_ptr` of request `d`. -/
def controller (s : ServiceCalls) (d : Nat) (request : TinyPBProtocol) : RpcController :=
  (s.calls d).foldl RpcController.call { msgId := request.msgId }

/-- What a step of the dispatcher shows: `ok` and `data` are what `SerializeToString` came
    to in the closure. -/
def shows (s : ServiceCalls) : DispatchLabel → List ServiceEvent
  | .reply d ok data =>
    match s.dispatcher.dispatches[d]? with
    | some r => [.replied d (s.controller d r.request) ok data (serialized r.response ok data)]
    | none => []
  | _ => []

def step (s : ServiceCalls) : ServiceLabel → Option (ServiceCalls × List ServiceEvent)
  | .dispatcher l =>
    (s.dispatcher.step g l).map fun r =>
      ({ s with dispatcher := r.1 }, r.2.map .dispatcher ++ s.shows l)
  | .service d call =>
    s.dispatcher.dispatches[d]?.bind fun r =>
      if r.place = .called then
        some ({ s with calls := Function.update s.calls d (s.calls d ++ [call]) }, [])
      else none

end ServiceCalls

/-- What a closure sends is made of the response and of what `SerializeToString` came to. -/
def FromClosure : ServiceEvent → Prop
  | .dispatcher _ => True
  | .replied _ _ ok data reply => ∃ response, reply = serialized response ok data

theorem step_fromClosure {g : Registry} {s s' : ServiceCalls} {l : ServiceLabel}
    {es : List ServiceEvent} (h : s.step g l = some (s', es)) : ∀ e ∈ es, FromClosure e := by
  cases l with
  | dispatcher l =>
    obtain ⟨r, -, heq⟩ := Option.map_eq_some_iff.mp h
    obtain ⟨-, rfl⟩ : _ = s' ∧ r.2.map .dispatcher ++ s.shows l = es := by simpa using heq
    intro e he
    rcases List.mem_append.mp he with he | he
    · obtain ⟨e', -, rfl⟩ := List.mem_map.mp he
      trivial
    · cases l with
      | reply d ok data =>
        simp only [ServiceCalls.shows] at he
        split at he
        · rename_i r' _
          obtain rfl := List.mem_singleton.mp he
          exact ⟨r'.response, rfl⟩
        · exact absurd he (by simp)
      | _ => exact absurd he (by simp [ServiceCalls.shows])
  | service d call =>
    obtain ⟨r, -, heq⟩ := Option.bind_eq_some_iff.mp h
    split at heq
    · obtain ⟨-, rfl⟩ : _ = s' ∧ [] = es := by simpa using heq
      exact fun e he => absurd he (by simp)
    · exact absurd heq (by simp)

theorem run_fromClosure {g : Registry} {s s' : ServiceCalls} {ls : List ServiceLabel}
    {es : List ServiceEvent} (hrun : run (ServiceCalls.step g) s ls = some (s', es)) :
    ∀ e ∈ es, FromClosure e := by
  refine run_induction (fun _ tr => ∀ e ∈ tr, FromClosure e) ?_ []
    (fun e he => absurd he (by simp)) hrun
  intro v tr l v' es' htr hstep e he
  rcases List.mem_append.mp he with he | he
  · exact htr e he
  · exact step_fromClosure hstep e he

/-! ## The wire -/

/-- A client reads `m` where the server wrote `reply`, among other messages and however the
    stream is cut. -/
def Receives (crc : Bytes → UInt32) (reply m : TinyPBProtocol) : Prop :=
  ∃ (before after : List TinyPBProtocol) (chunks : List Bytes) (out inp inp' : TcpBuffer)
    (ms : List TinyPBProtocol) (fatal : Bool),
    out.readable = [] ∧ inp.readable = [] ∧
      (encode crc ((before ++ reply :: after).map .tinyPB) out).1 = true ∧
      chunks.flatten = (encode crc ((before ++ reply :: after).map .tinyPB) out).2.2.readable ∧
      decodeChunks crc chunks inp = some (ms, fatal, inp') ∧ ms[before.length]? = some m

theorem Receives.travels {crc : Bytes → UInt32} {reply m : TinyPBProtocol}
    (h : Receives crc reply m) : Travels crc reply m := by
  obtain ⟨before, after, chunks, out, inp, inp', ms, fatal, hout, hinp, henc, hchunks, hdec,
    hm⟩ := h
  have hwf := encode_wellFormed henc
  obtain ⟨-, hbytes⟩ := encode_ok henc
  rw [hout, List.nil_append, sealedAll_map] at hbytes
  have hfeed := decodeChunks_feed crc hdec
  rw [hinp] at hfeed
  have hwait : (frameDecoder crc).verdict [] = .wait := verdict_nil _
  obtain ⟨hmessages, -, -⟩ := StreamScan.feed_spec [] hwait chunks
  obtain ⟨hscan, -, -⟩ := @scan_frames crc ((before ++ reply :: after).map (sealed crc)) (by
    intro m' hm'
    obtain ⟨m'', hmem, rfl⟩ := List.mem_map.mp hm'
    exact hwf m'' hmem)
  rw [hfeed, List.nil_append, hchunks, hbytes, hscan] at hmessages
  dsimp only at hmessages
  have hat : ((before ++ reply :: after).map (sealed crc))[before.length]? =
      some (sealed crc reply) := by
    simp
  rw [hmessages, hat, Option.some.injEq] at hm
  rw [← hm]
  exact travels_sealed crc (hwf reply (by simp))

/-! ## The two controllers -/

/-- What the response callback leaves of the failure flag. -/
theorem due_response_isFailed {Message : Type} {parse : Bytes → Message × Bool}
    {m : TinyPBProtocol} {ws : List (Write Message)} (h : Due parse (.response (.tinyPB m)) ws)
    (o : Owned Message) :
    (ws.foldl Owned.write o).isFailed = (o.isFailed || m.errCode != 0 || !(parse m.pbData).2) := by
  obtain ⟨v, -, rfl⟩ := h
  rw [beforeDone]
  split
  · rename_i hcode
    simp [setError, Owned.write, hcode]
  · rename_i hcode
    cases hparse : (parse m.pbData).2 <;> simp_all [setError, Owned.write]

/-- The verdict of the client agrees with that of the service: `failed` says that the service
    marked its controller, `sound` that the response serialised and parsed. -/
def Propagates (failed sound client : Bool) : Prop :=
  (failed = true → client = true) ∧ (failed = false → sound = true → client = false)

theorem call_owned_isFailed {Message : Type} (channel : RpcChannel) {args : Arguments}
    (call : Call) (controller : RpcController) (response : Message) (hargs : args.passes = true) :
    (World.call channel args call controller response).owned.isFailed = controller.isFailed := by
  rw [World.call, if_pos hargs]
  cases call with
  | callMethod done =>
    simp only [goOn, World.setThread, World.owned]
    split <;> rfl
  | callMethodBlocking timeoutMs =>
    simp only [goOn, World.setThread, World.owned]
    split <;> rfl

/-! ### A call of one service -/

/-- A service with one method, which any data calls. -/
def oneMethod : Registry :=
  Registry.registerService {}
    ⟨[83], fun name => if name = [109] then some ⟨[83, 46, 109], fun _ => true⟩ else none⟩

/-- The service makes `calls` on its controller and runs `done`. -/
def serves (calls : List ControllerCall) : List ServiceLabel :=
  [.dispatcher (.dispatch 0 (.tinyPB { msgId := [49], methodName := [83, 46, 109] }) (.tinyPB {})),
    .dispatcher (.goOn 0), .dispatcher (.goOn 0), .dispatcher (.goOn 0), .dispatcher (.goOn 0)] ++
    calls.map (.service 0) ++ [.dispatcher (.run 0), .dispatcher (.reply 0 true [7])]

/-- What the closure sends after that. -/
def oneReply : TinyPBProtocol :=
  serialized { msgId := [49], methodName := [83, 46, 109] } true [7]

/-- A call over a pooled client gets `m` and has finished with it. -/
def receives (m : TinyPBProtocol) : List Label :=
  [.thread 0 (.found true), .thread 0 (.generated [49]), .thread 0 (.serialized true),
    .thread 0 .none, .thread 0 .none, .thread 0 .none, .thread 0 .none, .thread 0 .none,
    .thread 0 .none, .responseArrives 1 (.tinyPB m), .thread 1 .none, .thread 1 .none,
    .thread 1 .none, .thread 1 .none, .thread 1 .none, .thread 1 .none, .thread 1 .none]

theorem receives_oneReply :
    Receives calculateChecksum oneReply (sealed calculateChecksum oneReply) := by
  have hdec : (decodeChunks calculateChecksum
      [(encode calculateChecksum [.tinyPB oneReply] (TcpBuffer.new 0)).2.2.readable]
      (TcpBuffer.new 0)).map (fun r => r.1[0]?) =
        some (some (sealed calculateChecksum oneReply)) := by
    decide +kernel
  obtain ⟨⟨ms, fatal, inp'⟩, hchunks, hm⟩ := Option.map_eq_some_iff.mp hdec
  exact ⟨[], [], _, TcpBuffer.new 0, TcpBuffer.new 0, inp', ms, fatal, by decide, by decide,
    by decide +kernel, by simp, hchunks, hm⟩

/-- A service's closure has sent `reply`, a client's call received it as `m` and has finished
    with it. The client's controller agrees with the service's exactly when the response did
    not come through, or the client's controller was from the start what the service made of
    its own. -/
theorem propagates_iff {Message : Type} (crc : Bytes → UInt32) (parse : Bytes → Message × Bool)
    (g : Registry) (workerThreads maxPendingTasks : Nat) (served : List ServiceLabel)
    (s : ServiceCalls) (shown : List ServiceEvent) (d : Nat) (serviceController : RpcController)
    (ok : Bool) (data : Bytes) (reply m : TinyPBProtocol) (channel : RpcChannel)
    (args : Arguments) (call : Call) (controller : RpcController) (response : Message)
    (ls : List Label) (w : World Message) (es : List (Event Message)) (t : ThreadId)
    (hserver : run (ServiceCalls.step g) (.new workerThreads maxPendingTasks) served =
      some (s, shown))
    (hreplied : .replied d serviceController ok data reply ∈ shown)
    (hwire : Receives crc reply m) (hargs : args.passes = true)
    (hclient : run (step parse) (World.call channel args call controller response) ls =
      some (w, es))
    (hwon : .won t (.response (.tinyPB m)) ∈ es) (hleft : (w.threads t).finishing = none) :
    Propagates serviceController.isFailed (ok && (parse data).2) w.controller.isFailed ↔
      (ok = true → (parse data).2 = true →
        serviceController.isFailed = controller.isFailed) := by
  obtain ⟨p, haccount⟩ := run_account hargs hclient
  obtain ⟨ws, hdue, -, howned⟩ := haccount.through hwon hleft
  have hclientFailed : w.controller.isFailed =
      (controller.isFailed || m.errCode != 0 || !(parse m.pbData).2) := by
    rw [← call_owned_isFailed channel call controller response hargs,
      ← due_response_isFailed hdue, ← howned]
    rfl
  obtain ⟨response', rfl⟩ : FromClosure (.replied d serviceController ok data reply) :=
    run_fromClosure hserver _ hreplied
  have htravels := hwire.travels
  rw [hclientFailed, htravels.errCode, htravels.pbData]
  cases ok with
  | false =>
    have hcode : error.kFailedSerialize ≠ 0 := by decide
    simp [Propagates, serialized, setTinyPBError, hcode]
  | true =>
    cases hparse : (parse data).2 with
    | false => simp [Propagates, serialized, hparse]
    | true =>
      cases serviceController.isFailed <;> cases controller.isFailed <;>
        simp [Propagates, serialized, hparse]

/-- A service that does not mark its controller. -/
theorem propagates_iff_success :
    ∃ (s : ServiceCalls) (shown : List ServiceEvent) (w : World Nat) (es : List (Event Nat)),
      run (ServiceCalls.step oneMethod) (.new 0 0) (serves []) = some (s, shown) ∧
      run (step fun data => (data.length, true))
        (World.call ⟨true, true, false, []⟩ ⟨true, true, true, true⟩ (.callMethod true) {} 0)
        (receives (sealed calculateChecksum oneReply)) = some (w, es) ∧
      Propagates false true w.controller.isFailed := by
  have hserver : (run (ServiceCalls.step oneMethod) (.new 0 0) (serves [])).map
      (fun r => decide (.replied 0 { msgId := [49] } true [7] oneReply ∈ r.2)) = some true := by
    decide +kernel
  obtain ⟨⟨s, shown⟩, hs, hreplied⟩ := Option.map_eq_some_iff.mp hserver
  have hclient : (run (step fun data => (data.length, true))
      (World.call ⟨true, true, false, []⟩ ⟨true, true, true, true⟩ (.callMethod true) {} 0)
      (receives (sealed calculateChecksum oneReply))).map (fun r =>
        decide (.won 1 (.response (.tinyPB (sealed calculateChecksum oneReply))) ∈ r.2 ∧
          (r.1.threads 1).finishing.isNone)) = some true := by
    decide +kernel
  obtain ⟨⟨w, es⟩, hw, hdone⟩ := Option.map_eq_some_iff.mp hclient
  obtain ⟨hwon, hleft⟩ := of_decide_eq_true hdone
  refine ⟨s, shown, w, es, hs, hw, ?_⟩
  exact (propagates_iff calculateChecksum _ _ 0 0 _ s shown 0 _ true [7] _ _ _ _ _ _ _ _ w es 1 hs
    (of_decide_eq_true hreplied) receives_oneReply rfl hw hwon (by simpa using hleft)).mpr
    fun _ _ => rfl

/-- A service that calls `SetFailed`, with a response that goes through. -/
theorem setFailed_not_propagated :
    ∃ (s : ServiceCalls) (shown : List ServiceEvent) (serviceController : RpcController)
      (w : World Nat) (es : List (Event Nat)),
      run (ServiceCalls.step oneMethod) (.new 0 0) (serves [.setFailed [110, 111]]) =
        some (s, shown) ∧
      .replied 0 serviceController true [7] oneReply ∈ shown ∧
      Receives calculateChecksum oneReply (sealed calculateChecksum oneReply) ∧
      run (step fun data => (data.length, true))
        (World.call ⟨true, true, false, []⟩ ⟨true, true, true, true⟩ (.callMethod true) {} 0)
        (receives (sealed calculateChecksum oneReply)) = some (w, es) ∧
      .won 1 (.response (.tinyPB (sealed calculateChecksum oneReply))) ∈ es ∧
      (w.threads 1).finishing = none ∧
      ¬ Propagates serviceController.isFailed true w.controller.isFailed := by
  have hserver : (run (ServiceCalls.step oneMethod) (.new 0 0)
      (serves [.setFailed [110, 111]])).map (fun r =>
        decide (.replied 0 { msgId := [49], errorInfo := [110, 111], isFailed := true } true [7]
          oneReply ∈ r.2)) = some true := by
    decide +kernel
  obtain ⟨⟨s, shown⟩, hs, hreplied⟩ := Option.map_eq_some_iff.mp hserver
  have hclient : (run (step fun data => (data.length, true))
      (World.call ⟨true, true, false, []⟩ ⟨true, true, true, true⟩ (.callMethod true) {} 0)
      (receives (sealed calculateChecksum oneReply))).map (fun r =>
        decide (.won 1 (.response (.tinyPB (sealed calculateChecksum oneReply))) ∈ r.2 ∧
          (r.1.threads 1).finishing.isNone ∧ r.1.controller.isFailed = false)) = some true := by
    decide +kernel
  obtain ⟨⟨w, es⟩, hw, hdone⟩ := Option.map_eq_some_iff.mp hclient
  obtain ⟨hwon, hleft, hok⟩ := of_decide_eq_true hdone
  refine ⟨s, shown, _, w, es, hs, of_decide_eq_true hreplied, receives_oneReply, hw, hwon,
    by simpa using hleft, ?_⟩
  intro hpropagates
  rw [hok] at hpropagates
  exact absurd (hpropagates.1 rfl) (by simp)

end RocketRpc.Rpc
