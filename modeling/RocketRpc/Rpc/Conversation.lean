import RocketRpc.Net.MessagePipe
import RocketRpc.Rpc.ResponseOnce

/-
  A client and a server from the call to its callback.

  The calls register under the ids of their requests and pass them to `send`; the bytes go to
  the server in any pieces; `RpcServer::onMessage` dispatches what is decoded, and the
  dispatcher, its workers and the closures run in any order; the responses go back in the same
  way, and `TcpClient::onMessage` runs the callback that it finds under the id. What the
  callbacks of a run were given is read off its events.
-/

namespace RocketRpc.Rpc

open RocketRpc.Tcp RocketRpc.Coder RocketRpc.Net Machine

structure Conversation where
  /-- The requests of the calls, by the order in which they register. -/
  requests : List TinyPBProtocol := []
  /-- `m_read_callbacks`, by the calls that the callbacks are of. -/
  readCallbacks : Bytes → Option Nat := fun _ => none
  /-- The calls whose request was passed to `send`. -/
  sends : List Nat := []
  toServer : MessagePipe := {}
  server : RpcDispatcher
  toClient : MessagePipe := {}

inductive ConversationLabel where
  /-- A call registers its callback. -/
  | readMessage (request : TinyPBProtocol)
  /-- Call `k` sends its request. -/
  | send (k : Nat)
  /-- Call `k` cancels its read. -/
  | cancelRead (k : Nat)
  | toServer (l : PipeLabel)
  /-- `RpcServer::onMessage` comes to the next message. -/
  | onRequest
  /-- A step of the dispatcher other than a new request. -/
  | server (l : DispatchLabel)
  | toClient (l : PipeLabel)
  /-- `TcpClient::onMessage` comes to the next message. -/
  | onResponse
  deriving DecidableEq, Repr

inductive ConversationEvent where
  | server (e : DispatchEvent)
  /-- The client comes to a response. -/
  | received (m : TinyPBProtocol)
  /-- The callback of call `k` is run. -/
  | completed (k : Nat) (m : TinyPBProtocol)
  | cancelled (k : Nat)
  deriving DecidableEq, Repr

/-- The messages that the dispatcher passes to `send`. -/
def DispatchEvent.message : DispatchEvent → Option TinyPBProtocol
  | .sent _ _ message => some message
  | _ => none

def DispatchLabel.arrives : DispatchLabel → Bool
  | .dispatch _ _ _ => true
  | _ => false

namespace Conversation

variable (g : Registry) (crc : Bytes → UInt32)

def new (workerThreads maxPendingTasks : Nat) : Conversation :=
  { server := .new workerThreads maxPendingTasks }

/-- What was passed to `send` at the client. -/
def sent (s : Conversation) : List TinyPBProtocol := s.sends.filterMap fun k => s.requests[k]?

def setEntry (s : Conversation) (id : Bytes) (entry : Option Nat) : Conversation :=
  { s with readCallbacks := Function.update s.readCallbacks id entry }

/-- `TcpClient::onMessage` for one message. -/
def onResponse (s : Conversation) (m : TinyPBProtocol) :
    Conversation × List ConversationEvent :=
  match s.readCallbacks m.msgId with
  | some k => (s.setEntry m.msgId none, [.received m, .completed k m])
  | none => (s, [.received m])

def step (s : Conversation) : ConversationLabel → Option (Conversation × List ConversationEvent)
  | .readMessage request =>
    let s' := s.setEntry request.msgId (some s.requests.length)
    some ({ s' with requests := s.requests ++ [request] }, [])
  | .send k =>
    if k ∈ s.sends then none
    else
      s.requests[k]?.map fun request =>
        ({ s with sends := s.sends ++ [k], toServer := s.toServer.send request }, [])
  | .cancelRead k =>
    s.requests[k]?.map fun request => (s.setEntry request.msgId none, [.cancelled k])
  | .toServer l => (s.toServer.step crc l).map fun toServer => ({ s with toServer }, [])
  | .onRequest =>
    s.toServer.take.map fun r =>
      ({ s with toServer := r.2, server := s.server.dispatch 0 (.tinyPB r.1) (.tinyPB {}) }, [])
  | .server l =>
    if l.arrives then none
    else
      (s.server.step g l).map fun r =>
        let toClient := (r.2.filterMap DispatchEvent.message).foldl MessagePipe.send s.toClient
        ({ s with server := r.1, toClient }, r.2.map .server)
  | .toClient l => (s.toClient.step crc l).map fun toClient => ({ s with toClient }, [])
  | .onResponse => s.toClient.take.map fun r => { s with toClient := r.2 }.onResponse r.1

/-- A call registers under an id that no call had before, as `GenMsgID` makes them. -/
def FreshId (s : Conversation) : ConversationLabel → Prop
  | .readMessage request => request.msgId ≠ [] ∧ ∀ r ∈ s.requests, r.msgId ≠ request.msgId
  | _ => True

instance (s : Conversation) : DecidablePred s.FreshId
  | .readMessage _ => inferInstanceAs (Decidable (_ ∧ _))
  | .send _ | .cancelRead _ | .toServer _ | .onRequest | .server _ | .toClient _ | .onResponse =>
    .isTrue trivial

/-- The steps of the loops, the workers, the dispatcher and the closures. -/
def progress : ConversationLabel → Bool
  | .toServer _ | .onRequest | .toClient _ | .onResponse => true
  | .server l => l.inner
  | .readMessage _ | .send _ | .cancelRead _ => false

end Conversation

/-! ## What a run shows -/

def ConversationEvent.ofServer : ConversationEvent → Option DispatchEvent
  | .server e => some e
  | _ => none

def ConversationEvent.ofResponse : ConversationEvent → Option TinyPBProtocol
  | .received m => some m
  | _ => none

/-- The events of the dispatcher. -/
def serverEvents (tr : List ConversationEvent) : List DispatchEvent :=
  tr.filterMap ConversationEvent.ofServer

/-- What the dispatcher passed to `send`. -/
def replies (tr : List ConversationEvent) : List TinyPBProtocol :=
  (serverEvents tr).filterMap DispatchEvent.message

/-- What the client came to. -/
def responses (tr : List ConversationEvent) : List TinyPBProtocol :=
  tr.filterMap ConversationEvent.ofResponse

def ConversationEvent.completes (k : Nat) : ConversationEvent → Bool
  | .completed j _ => j == k
  | _ => false

/-- How often the callback of call `k` was run. -/
def completions (k : Nat) (tr : List ConversationEvent) : Nat :=
  tr.countP (ConversationEvent.completes k)

@[simp] theorem serverEvents_append (tr es : List ConversationEvent) :
    serverEvents (tr ++ es) = serverEvents tr ++ serverEvents es := List.filterMap_append

@[simp] theorem replies_append (tr es : List ConversationEvent) :
    replies (tr ++ es) = replies tr ++ replies es := by
  rw [replies, serverEvents_append, List.filterMap_append]
  rfl

@[simp] theorem responses_append (tr es : List ConversationEvent) :
    responses (tr ++ es) = responses tr ++ responses es := List.filterMap_append

@[simp] theorem completions_append (k : Nat) (tr es : List ConversationEvent) :
    completions k (tr ++ es) = completions k tr + completions k es := List.countP_append

theorem serverEvents_map (es : List DispatchEvent) :
    serverEvents (es.map .server) = es := by
  rw [serverEvents, List.filterMap_map]
  exact List.filterMap_some

theorem replies_map (es : List DispatchEvent) :
    replies (es.map .server) = es.filterMap DispatchEvent.message := by
  rw [replies, serverEvents_map]

theorem mem_serverEvents {e : DispatchEvent} {tr : List ConversationEvent} :
    e ∈ serverEvents tr ↔ .server e ∈ tr := by
  simp only [serverEvents, List.mem_filterMap]
  constructor
  · rintro ⟨x, hx, he⟩
    cases x <;> simp [ConversationEvent.ofServer] at he
    exact he ▸ hx
  · exact fun h => ⟨_, h, rfl⟩

theorem mem_replies {m : TinyPBProtocol} {tr : List ConversationEvent} :
    m ∈ replies tr ↔ ∃ d c, .server (.sent d c m) ∈ tr := by
  simp only [replies, List.mem_filterMap]
  constructor
  · rintro ⟨e, he, hm⟩
    cases e <;> simp [DispatchEvent.message] at hm
    exact ⟨_, _, hm ▸ mem_serverEvents.mp he⟩
  · rintro ⟨d, c, h⟩
    exact ⟨_, mem_serverEvents.mpr h, rfl⟩

theorem completions_eq_zero_of {k : Nat} {es : List ConversationEvent}
    (h : ∀ j m, .completed j m ∈ es → j ≠ k) : completions k es = 0 := by
  rw [completions, List.countP_eq_zero]
  intro e he
  cases e with
  | completed j m => simpa [ConversationEvent.completes] using h j m he
  | server | received | cancelled => simp [ConversationEvent.completes]

end RocketRpc.Rpc
