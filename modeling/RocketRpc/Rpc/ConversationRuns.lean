import Mathlib.Data.List.Nodup
import RocketRpc.Rpc.Conversation

/-
  The runs of a conversation.

  `Recorded` is what the table of read callbacks has to do with what happened, and `Piped` what
  the two directions and the dispatcher have to do with each other; every step keeps both
  (`step_agreed`). `conversation_safe` and `conversation_complete` are read off them.
-/

namespace RocketRpc.Rpc

open RocketRpc.Tcp RocketRpc.Coder RocketRpc.Net RocketRpc.Common Machine Conversation

variable {g : Registry} {crc : Bytes → UInt32}

/-! ## The dispatcher -/

theorem step_length {s s' : RpcDispatcher} {l : DispatchLabel} {es : List DispatchEvent}
    (hl : l.arrives = false) (hs : s.step g l = some (s', es)) :
    s'.dispatches.length = s.dispatches.length := by
  have hput : ∀ (u : RpcDispatcher) d r, (u.put d r).dispatches.length = u.dispatches.length :=
    fun u d r => List.length_set
  cases l with
  | dispatch conn request response => exact absurd hl Bool.noConfusion
  | goOn d =>
    obtain ⟨r, -, hr⟩ := Option.bind_eq_some_iff.mp hs
    cases goOn_cases hr <;> exact hput _ _ _
  | take i =>
    obtain ⟨s₁, htake, heq⟩ := Option.map_eq_some_iff.mp hs
    obtain ⟨rfl, -⟩ := Prod.mk.inj heq
    unfold RpcDispatcher.take at htake
    split at htake
    · obtain ⟨r, -, rfl⟩ := Option.map_eq_some_iff.mp htake
      exact hput _ _ _
    · obtain rfl := Option.some.inj htake
      rfl
    · exact absurd htake (by simp)
  | invoke i =>
    obtain ⟨⟨d, r⟩, -, hr⟩ := Option.bind_eq_some_iff.mp hs
    obtain ⟨-, heq⟩ := Option.ite_none_right_eq_some.mp hr
    obtain ⟨rfl, -⟩ := Prod.mk.inj (Option.some.inj heq)
    exact hput _ _ _
  | finish i =>
    obtain ⟨⟨d, r⟩, -, hr⟩ := Option.bind_eq_some_iff.mp hs
    obtain ⟨-, heq⟩ := Option.ite_none_left_eq_some.mp hr
    obtain ⟨workerPool, -, heq⟩ := Option.map_eq_some_iff.mp heq
    obtain ⟨rfl, -⟩ := Prod.mk.inj heq
    rfl
  | run d =>
    obtain ⟨r, -, hr⟩ := Option.bind_eq_some_iff.mp hs
    obtain ⟨-, heq⟩ := Option.ite_none_right_eq_some.mp hr
    obtain ⟨rfl, -⟩ := Prod.mk.inj (Option.some.inj heq)
    exact hput _ _ _
  | reply d ok data =>
    obtain ⟨r, -, hr⟩ := Option.bind_eq_some_iff.mp hs
    obtain ⟨-, heq⟩ := Option.ite_none_right_eq_some.mp hr
    obtain ⟨rfl, -⟩ := Prod.mk.inj (Option.some.inj heq)
    exact hput _ _ _
  | stop =>
    obtain ⟨rfl, -⟩ := Prod.mk.inj (Option.some.inj hs)
    rfl
  | stopAndDrain =>
    obtain ⟨-, heq⟩ := Option.ite_none_right_eq_some.mp hs
    obtain ⟨rfl, -⟩ := Prod.mk.inj (Option.some.inj heq)
    rfl

/-- Only a new request changes which requests there are. -/
theorem step_requests {s s' : RpcDispatcher} {l : DispatchLabel} {es : List DispatchEvent}
    (h : Handed s) (hl : l.arrives = false) (hs : s.step g l = some (s', es)) :
    s'.dispatches.map Dispatch.request = s.dispatches.map Dispatch.request := by
  have hlength := step_length hl hs
  cases step_moves h.queuedPlaces hs with
  | came hdispatches =>
    rw [hdispatches, List.length_append, List.length_singleton] at hlength
    omega
  | @moved d r r' _ hd hdispatches hsame _ _ =>
    obtain ⟨hlt, rfl⟩ := List.getElem?_eq_some_iff.mp hd
    rw [hdispatches, List.map_set, hsame.request, ← List.getElem_map Dispatch.request
      (h := by rwa [List.length_map]), List.set_getElem_self]
  | beside hdispatches => rw [hdispatches]

theorem exists_sent {d : Nat} {es : List DispatchEvent} (h : 0 < sends d es) :
    ∃ c m, .sent d c m ∈ es := by
  obtain ⟨e, he, hsent⟩ := List.countP_pos_iff.mp h
  cases e with
  | sent d' c m =>
    obtain rfl : d' = d := by simpa using hsent
    exact ⟨c, m, he⟩
  | incrInFlight | decrInFlight => exact absurd hsent (by simp)

/-! ## What a conversation keeps -/

theorem sealed_msgId {m : TinyPBProtocol} (h : m.msgId ≠ []) : (sealed crc m).msgId = m.msgId := by
  simp only [sealed, written, withMsgId, if_neg h]

/-- The table of read callbacks agrees with the calls and with what has happened. -/
structure Recorded (s : Conversation) (tr : List ConversationEvent) : Prop where
  ids : (s.requests.map TinyPBProtocol.msgId).Nodup
  named : ∀ m ∈ s.requests, m.msgId ≠ []
  entry : ∀ id k, s.readCallbacks id = some k → completions k tr = 0 ∧
    ∃ m, s.requests[k]? = some m ∧ m.msgId = id
  /-- A call without an entry was completed, or cancelled its read. -/
  settled : ∀ (k : Nat) m, s.requests[k]? = some m → s.readCallbacks m.msgId = none →
    0 < completions k tr ∨ .cancelled k ∈ tr
  once : ∀ k, completions k tr ≤ 1
  /-- Where the client has come to a response, the entry is gone. -/
  erased : ∀ m ∈ responses tr, s.readCallbacks m.msgId = none
  own : ∀ k m, .completed k m ∈ tr → m ∈ responses tr ∧
    ∃ request, s.requests[k]? = some request ∧ request.msgId = m.msgId

/-- The server has got what was sent, and the client its responses. -/
structure Piped (crc : Bytes → UInt32) (s : Conversation) (tr : List ConversationEvent) :
    Prop where
  known : ∀ k ∈ s.sends, k < s.requests.length
  toServer : Sound crc s.toServer s.sent (s.server.dispatches.map Dispatch.request)
  toClient : Sound crc s.toClient (replies tr) (responses tr)
  accounted : Accounted s.server (serverEvents tr)
  handed : Handed s.server

/-- The two ends agree on the calls, the requests and the responses. -/
structure Agreed (crc : Bytes → UInt32) (s : Conversation) (tr : List ConversationEvent) :
    Prop where
  recorded : Recorded s tr
  piped : Piped crc s tr

theorem agreed_new (workerThreads maxPendingTasks : Nat) :
    Agreed crc (.new workerThreads maxPendingTasks) [] where
  recorded := by
    refine ⟨?_, ?_, ?_, ?_, ?_, ?_, ?_⟩ <;> simp [Conversation.new, completions, responses]
  piped := ⟨by simp [Conversation.new], sound_new, sound_new,
    accounted_new workerThreads maxPendingTasks, handed_new workerThreads maxPendingTasks⟩

section

variable {s s' : Conversation} {tr es : List ConversationEvent}

/-- Where a response comes from: the dispatcher gave it to the request of a call, and it has
    the id of that call. -/
theorem Agreed.origin (h : Agreed crc s tr) {m : TinyPBProtocol} (hm : m ∈ responses tr) :
    ∃ d c reply r k request, .server (.sent d c reply) ∈ tr ∧ m = sealed crc reply ∧
      s.server.dispatches[d]? = some r ∧ s.requests[k]? = some request ∧ k ∈ s.sends ∧
      r.request = sealed crc request ∧ request.msgId = m.msgId := by
  obtain ⟨reply, hreply, rfl⟩ := h.piped.toClient.origin hm
  obtain ⟨d, c, hsent⟩ := mem_replies.mp hreply
  obtain ⟨r, hr, -, hlabelled⟩ := h.piped.accounted.answers d c reply (mem_serverEvents.mpr hsent)
  have hrequest : r.request ∈ s.server.dispatches.map Dispatch.request :=
    List.mem_map_of_mem (List.mem_of_getElem? hr)
  obtain ⟨request, hsent', heq⟩ := h.piped.toServer.origin hrequest
  obtain ⟨k, hk, hat⟩ := List.mem_filterMap.mp hsent'
  have hne := h.recorded.named request (List.mem_of_getElem? hat)
  have hid : reply.msgId = request.msgId := by rw [hlabelled.1, heq, sealed_msgId hne]
  refine ⟨d, c, reply, r, k, request, hsent, rfl, hr, hat, hk, heq, ?_⟩
  rw [sealed_msgId (by rw [hid]; exact hne), hid]

/-- Two calls with one id are one call. -/
theorem Recorded.unique (h : Recorded s tr) {j k : Nat} {m m' : TinyPBProtocol}
    (hj : s.requests[j]? = some m) (hk : s.requests[k]? = some m') (hid : m.msgId = m'.msgId) :
    j = k := by
  obtain ⟨hj, rfl⟩ := List.getElem?_eq_some_iff.mp hj
  obtain ⟨hk, rfl⟩ := List.getElem?_eq_some_iff.mp hk
  have hj' : j < (s.requests.map TinyPBProtocol.msgId).length := by rwa [List.length_map]
  have hk' : k < (s.requests.map TinyPBProtocol.msgId).length := by rwa [List.length_map]
  exact (@List.Nodup.getElem_inj_iff _ _ h.ids j hj' k hk').mp (by simpa using hid)

/-! ## The table -/

/-- Steps that are not the client's leave the table alone. -/
theorem Recorded.aside (h : Recorded s tr) (hrequests : s'.requests = s.requests)
    (hread : s'.readCallbacks = s.readCallbacks) (hes : ∀ e ∈ es, ∃ d, e = .server d) :
    Recorded s' (tr ++ es) := by
  have hcompletions : ∀ k, completions k (tr ++ es) = completions k tr := by
    intro k
    have hzero : completions k es = 0 := by
      refine completions_eq_zero_of fun j m hmem => ?_
      obtain ⟨d, hd⟩ := hes _ hmem
      exact absurd hd (by simp)
    rw [completions_append, hzero, Nat.add_zero]
  have hresponses : responses (tr ++ es) = responses tr := by
    have hnone : responses es = [] := by
      rw [responses, List.filterMap_eq_nil_iff]
      intro e he
      obtain ⟨d, rfl⟩ := hes e he
      rfl
    rw [responses_append, hnone, List.append_nil]
  refine ⟨hrequests ▸ h.ids, hrequests ▸ h.named, ?_, ?_, ?_, ?_, ?_⟩
  · simp only [hread, hrequests, hcompletions]
    exact h.entry
  · intro k m hk hnone
    rw [hrequests] at hk
    rw [hread] at hnone
    rw [hcompletions]
    exact (h.settled k m hk hnone).imp_right (List.mem_append_left _)
  · simp only [hcompletions]
    exact h.once
  · rw [hresponses, hread]
    exact h.erased
  · intro k m hmem
    rw [hresponses, hrequests]
    rcases List.mem_append.mp hmem with hmem | hmem
    · exact h.own k m hmem
    · obtain ⟨d, hd⟩ := hes _ hmem
      exact absurd hd (by simp)

/-- A call registers under a new id. -/
theorem Agreed.registers (h : Agreed crc s tr) {request : TinyPBProtocol}
    (hne : request.msgId ≠ []) (hfresh : ∀ r ∈ s.requests, r.msgId ≠ request.msgId)
    (hrequests : s'.requests = s.requests ++ [request])
    (hread : s'.readCallbacks =
      Function.update s.readCallbacks request.msgId (some s.requests.length)) :
    Recorded s' tr := by
  have hold : ∀ {k : Nat} {m}, s.requests[k]? = some m → s'.requests[k]? = some m := by
    intro k m hk
    obtain ⟨hlt, -⟩ := List.getElem?_eq_some_iff.mp hk
    rw [hrequests, List.getElem?_append_left hlt, hk]
  have hnew : completions s.requests.length tr = 0 := by
    refine completions_eq_zero_of fun j m hmem hj => ?_
    obtain ⟨-, r, hr, -⟩ := h.recorded.own j m hmem
    obtain ⟨hlt, -⟩ := List.getElem?_eq_some_iff.mp hr
    omega
  have hother : ∀ m ∈ s.requests, s'.readCallbacks m.msgId = s.readCallbacks m.msgId := by
    intro m hm
    rw [hread, Function.update_of_ne (hfresh m hm)]
  refine ⟨?_, ?_, ?_, ?_, h.recorded.once, ?_, ?_⟩
  · rw [hrequests, List.map_append, List.nodup_append]
    refine ⟨h.recorded.ids, by simp, ?_⟩
    intro id hid id' hid' heq
    obtain ⟨r, hr, rfl⟩ := List.mem_map.mp hid
    exact hfresh r hr (heq.trans (by simpa using hid'))
  · intro m hm
    rw [hrequests] at hm
    rcases List.mem_append.mp hm with hm | hm
    · exact h.recorded.named m hm
    · exact List.mem_singleton.mp hm ▸ hne
  · intro id k hentry
    rw [hread] at hentry
    by_cases hid : id = request.msgId
    · subst hid
      rw [Function.update_self] at hentry
      obtain rfl := Option.some.inj hentry
      exact ⟨hnew, request, by rw [hrequests]; simp, rfl⟩
    · rw [Function.update_of_ne hid] at hentry
      obtain ⟨hzero, m, hm, hid'⟩ := h.recorded.entry id k hentry
      exact ⟨hzero, m, hold hm, hid'⟩
  · intro k m hk hnone
    rw [hrequests] at hk
    rcases Nat.lt_or_ge k s.requests.length with hlt | hge
    · rw [List.getElem?_append_left hlt] at hk
      rw [hother m (List.mem_of_getElem? hk)] at hnone
      exact h.recorded.settled k m hk hnone
    · rw [List.getElem?_append_right hge] at hk
      obtain ⟨-, rfl⟩ : _ ∧ request = m := by
        simpa [List.getElem?_singleton] using hk
      rw [hread, Function.update_self] at hnone
      exact absurd hnone (by simp)
  · intro m hm
    obtain ⟨-, -, -, -, k, r, -, -, -, hr, -, -, hid⟩ := h.origin hm
    rw [← hid, hother r (List.mem_of_getElem? hr), hid]
    exact h.recorded.erased m hm
  · intro k m hmem
    obtain ⟨hm, r, hr, hid⟩ := h.recorded.own k m hmem
    exact ⟨hm, r, hold hr, hid⟩

/-- A call cancels its read. -/
theorem Recorded.cancels (h : Recorded s tr) {k : Nat} {request : TinyPBProtocol}
    (hk : s.requests[k]? = some request) :
    Recorded (s.setEntry request.msgId none) (tr ++ [.cancelled k]) := by
  have hcompletions : ∀ j, completions j (tr ++ [.cancelled k]) = completions j tr := by
    intro j
    rw [completions_append]
    rfl
  have hresponses : responses (tr ++ [.cancelled k]) = responses tr := by
    rw [responses_append]
    exact List.append_nil _
  have hother : ∀ id, id ≠ request.msgId →
      (s.setEntry request.msgId none).readCallbacks id = s.readCallbacks id :=
    fun id hid => Function.update_of_ne hid _ _
  have hself : (s.setEntry request.msgId none).readCallbacks request.msgId = none :=
    Function.update_self _ _ _
  refine ⟨h.ids, h.named, ?_, ?_, ?_, ?_, ?_⟩
  · intro id j hentry
    by_cases hid : id = request.msgId
    · rw [hid, hself] at hentry
      exact absurd hentry (by simp)
    · rw [hother id hid] at hentry
      rw [hcompletions]
      exact h.entry id j hentry
  · intro j m hj hnone
    by_cases hid : m.msgId = request.msgId
    · obtain rfl := h.unique hj hk hid
      exact Or.inr (by simp)
    · rw [hother _ hid] at hnone
      rw [hcompletions]
      exact (h.settled j m hj hnone).imp_right (List.mem_append_left _)
  · intro j
    rw [hcompletions]
    exact h.once j
  · intro m hm
    rw [hresponses] at hm
    by_cases hid : m.msgId = request.msgId
    · rw [hid, hself]
    · rw [hother _ hid]
      exact h.erased m hm
  · intro j m hmem
    rw [hresponses]
    rcases List.mem_append.mp hmem with hmem | hmem
    · exact h.own j m hmem
    · exact absurd hmem (by simp)

/-- The client comes to a response, and runs the callback that it finds. -/
theorem Recorded.responds (h : Recorded s tr) (m : TinyPBProtocol) :
    Recorded (s.onResponse m).1 (tr ++ (s.onResponse m).2) := by
  unfold Conversation.onResponse
  cases hentry : s.readCallbacks m.msgId with
  | none =>
    dsimp only
    have hcompletions : ∀ j, completions j (tr ++ [.received m]) = completions j tr := by
      intro j
      rw [completions_append]
      rfl
    have hresponses : responses (tr ++ [.received m]) = responses tr ++ [m] := by
      rw [responses_append]
      rfl
    refine ⟨h.ids, h.named, ?_, ?_, ?_, ?_, ?_⟩
    · simp only [hcompletions]
      exact h.entry
    · intro j r hj hnone
      rw [hcompletions]
      exact (h.settled j r hj hnone).imp_right (List.mem_append_left _)
    · simp only [hcompletions]
      exact h.once
    · intro r hr
      rw [hresponses] at hr
      rcases List.mem_append.mp hr with hr | hr
      · exact h.erased r hr
      · rw [List.mem_singleton.mp hr, hentry]
    · intro j r hmem
      rw [hresponses]
      rcases List.mem_append.mp hmem with hmem | hmem
      · obtain ⟨hr, hrequest⟩ := h.own j r hmem
        exact ⟨List.mem_append_left _ hr, hrequest⟩
      · exact absurd hmem (by simp)
  | some k =>
    dsimp only
    obtain ⟨hzero, request, hk, hid⟩ := h.entry _ k hentry
    have hcompletions : ∀ j, completions j (tr ++ [.received m, .completed k m]) =
        completions j tr + if k = j then 1 else 0 := by
      intro j
      rw [completions_append]
      by_cases hkj : k = j <;> simp [completions, ConversationEvent.completes, hkj]
    have hresponses : responses (tr ++ [.received m, .completed k m]) = responses tr ++ [m] := by
      rw [responses_append]
      rfl
    have hother : ∀ id, id ≠ m.msgId →
        (s.setEntry m.msgId none).readCallbacks id = s.readCallbacks id :=
      fun id hid => Function.update_of_ne hid _ _
    have hself : (s.setEntry m.msgId none).readCallbacks m.msgId = none :=
      Function.update_self _ _ _
    refine ⟨h.ids, h.named, ?_, ?_, ?_, ?_, ?_⟩
    · intro id j hj
      by_cases hid' : id = m.msgId
      · rw [hid', hself] at hj
        exact absurd hj (by simp)
      · rw [hother id hid'] at hj
        obtain ⟨hj0, r, hr, hrid⟩ := h.entry id j hj
        have hkj : k ≠ j := by
          rintro rfl
          obtain rfl := Option.some.inj (hk.symm.trans hr)
          exact hid' (hrid.symm.trans hid)
        exact ⟨by rw [hcompletions, hj0, if_neg hkj], r, hr, hrid⟩
    · intro j r hj hnone
      by_cases hid' : r.msgId = m.msgId
      · obtain rfl := h.unique hj hk (hid'.trans hid.symm)
        exact Or.inl (by rw [hcompletions, if_pos rfl]; omega)
      · rw [hother _ hid'] at hnone
        refine (h.settled j r hj hnone).imp (fun hpos => ?_) (List.mem_append_left _)
        rw [hcompletions]
        omega
    · intro j
      have honce := h.once j
      rw [hcompletions]
      split
      · rename_i hkj
        subst hkj
        omega
      · exact honce
    · intro r hr
      rw [hresponses] at hr
      by_cases hid' : r.msgId = m.msgId
      · rw [hid', hself]
      · rw [hother _ hid']
        rcases List.mem_append.mp hr with hr | hr
        · exact h.erased r hr
        · exact absurd (congrArg TinyPBProtocol.msgId (List.mem_singleton.mp hr)) hid'
    · intro j r hmem
      rw [hresponses]
      rcases List.mem_append.mp hmem with hmem | hmem
      · obtain ⟨hr, hrequest⟩ := h.own j r hmem
        exact ⟨List.mem_append_left _ hr, hrequest⟩
      · obtain ⟨rfl, rfl⟩ : j = k ∧ r = m := by simpa using hmem
        exact ⟨by simp, request, hk, hid⟩

/-! ## Steps -/

theorem serverEvents_onResponse (s : Conversation) (m : TinyPBProtocol) :
    serverEvents (s.onResponse m).2 = [] := by
  unfold Conversation.onResponse
  split <;> rfl

theorem responses_onResponse (s : Conversation) (m : TinyPBProtocol) :
    responses (s.onResponse m).2 = [m] := by
  unfold Conversation.onResponse
  split <;> rfl

/-- Events that are no responses and not the dispatcher's. -/
theorem Piped.concat (h : Piped crc s tr) (hserver : serverEvents es = [])
    (hresponses : responses es = []) : Piped crc s (tr ++ es) := by
  have hreplies : replies es = [] := by rw [replies, hserver, List.filterMap_nil]
  refine ⟨h.known, h.toServer, ?_, ?_, h.handed⟩
  · rw [replies_append, responses_append, hreplies, hresponses, List.append_nil, List.append_nil]
    exact h.toClient
  · rw [serverEvents_append, hserver, List.append_nil]
    exact h.accounted

/-- `onResponse` leaves what the two ends sent alone. -/
theorem Piped.responds (h : Piped crc s tr) {m : TinyPBProtocol} {toClient : MessagePipe}
    (htake : s.toClient.take = some (m, toClient)) :
    let r := { s with toClient }.onResponse m
    Piped crc r.1 (tr ++ r.2) := by
  intro r
  have hsound := h.toClient.take htake
  have hserver : serverEvents r.2 = [] := serverEvents_onResponse _ m
  have hreplies : replies r.2 = [] := by rw [replies, hserver, List.filterMap_nil]
  have hresponses : responses r.2 = [m] := responses_onResponse _ m
  have hstate : r.1.sends = s.sends ∧ r.1.requests = s.requests ∧ r.1.toServer = s.toServer ∧
      r.1.server = s.server ∧ r.1.toClient = toClient := by
    simp only [r, Conversation.onResponse]
    split <;> exact ⟨rfl, rfl, rfl, rfl, rfl⟩
  obtain ⟨hsends, hrequests, htoServer, hdispatcher, htoClient⟩ := hstate
  refine ⟨?_, ?_, ?_, ?_, hdispatcher ▸ h.handed⟩
  · rw [hsends, hrequests]
    exact h.known
  · rw [Conversation.sent, hsends, hrequests, htoServer, hdispatcher]
    exact h.toServer
  · rw [htoClient, replies_append, responses_append, hreplies, hresponses, List.append_nil]
    exact hsound
  · rw [serverEvents_append, hserver, List.append_nil, hdispatcher]
    exact h.accounted

theorem step_agreed {l : ConversationLabel} (h : Agreed crc s tr) (hfresh : s.FreshId l)
    (hs : s.step g crc l = some (s', es)) : Agreed crc s' (tr ++ es) := by
  have hp := h.piped
  have hquiet : ∀ e ∈ ([] : List ConversationEvent), ∃ d, e = .server d := by simp
  cases l with
  | readMessage request =>
    obtain ⟨rfl, rfl⟩ := Prod.mk.inj (Option.some.inj hs)
    rw [List.append_nil]
    have hsent : (s.sends.filterMap fun k => (s.requests ++ [request])[k]?) = s.sent :=
      List.filterMap_congr fun k hk => List.getElem?_append_left (hp.known k hk)
    refine ⟨h.registers hfresh.1 hfresh.2 rfl rfl, ?_, ?_, hp.toClient, hp.accounted, hp.handed⟩
    · intro k hk
      rw [List.length_append]
      exact Nat.lt_add_right _ (hp.known k hk)
    · change Sound crc s.toServer (s.sends.filterMap fun k => (s.requests ++ [request])[k]?) _
      rw [hsent]
      exact hp.toServer
  | send k =>
    obtain ⟨-, heq⟩ := Option.ite_none_left_eq_some.mp hs
    obtain ⟨request, hk, heq⟩ := Option.map_eq_some_iff.mp heq
    obtain ⟨rfl, rfl⟩ := Prod.mk.inj heq
    refine ⟨h.recorded.aside rfl rfl hquiet, ?_⟩
    rw [List.append_nil]
    refine ⟨?_, ?_, hp.toClient, hp.accounted, hp.handed⟩
    · intro j hj
      rcases List.mem_append.mp hj with hj | hj
      · exact hp.known j hj
      · rw [List.mem_singleton.mp hj]
        exact (List.getElem?_eq_some_iff.mp hk).1
    · change Sound crc _ ((s.sends ++ [k]).filterMap fun k => s.requests[k]?) _
      rw [List.filterMap_append, List.filterMap_cons_some hk, List.filterMap_nil]
      exact hp.toServer.send request
  | cancelRead k =>
    obtain ⟨request, hk, heq⟩ := Option.map_eq_some_iff.mp hs
    obtain ⟨rfl, rfl⟩ := Prod.mk.inj heq
    have hpiped : Piped crc (s.setEntry request.msgId none) tr :=
      ⟨hp.known, hp.toServer, hp.toClient, hp.accounted, hp.handed⟩
    exact ⟨h.recorded.cancels hk, hpiped.concat rfl rfl⟩
  | toServer l =>
    obtain ⟨toServer, hstep, heq⟩ := Option.map_eq_some_iff.mp hs
    obtain ⟨rfl, rfl⟩ := Prod.mk.inj heq
    refine ⟨h.recorded.aside rfl rfl hquiet, ?_⟩
    rw [List.append_nil]
    exact ⟨hp.known, hp.toServer.step hstep, hp.toClient, hp.accounted, hp.handed⟩
  | onRequest =>
    obtain ⟨⟨m, toServer⟩, htake, heq⟩ := Option.map_eq_some_iff.mp hs
    obtain ⟨rfl, rfl⟩ := Prod.mk.inj heq
    have hdispatch : s.server.step g (.dispatch 0 (.tinyPB m) (.tinyPB {})) =
        some (s.server.dispatch 0 (.tinyPB m) (.tinyPB {}), []) := rfl
    have haccounted := step_accounted hp.accounted (step_moves hp.handed.queuedPlaces hdispatch)
    refine ⟨h.recorded.aside rfl rfl hquiet, ?_⟩
    rw [List.append_nil] at haccounted ⊢
    refine ⟨hp.known, ?_, hp.toClient, haccounted, step_handed hp.handed hdispatch⟩
    change Sound crc toServer s.sent ((s.server.dispatches ++ [_]).map Dispatch.request)
    rw [List.map_append]
    exact hp.toServer.take htake
  | server l =>
    obtain ⟨hl, heq⟩ := Option.ite_none_left_eq_some.mp hs
    obtain ⟨⟨server, es'⟩, hstep, heq⟩ := Option.map_eq_some_iff.mp heq
    obtain ⟨rfl, rfl⟩ := Prod.mk.inj heq
    have hresponses : responses (es'.map .server) = [] := by
      rw [responses, List.filterMap_map, List.filterMap_eq_nil_iff]
      intro e _
      rfl
    have hserver : ∀ e ∈ es'.map ConversationEvent.server, ∃ d, e = .server d := by
      intro e he
      obtain ⟨d, -, rfl⟩ := List.mem_map.mp he
      exact ⟨d, rfl⟩
    refine ⟨h.recorded.aside rfl rfl hserver, hp.known, ?_, ?_, ?_, step_handed hp.handed hstep⟩
    · change Sound crc s.toServer s.sent (server.dispatches.map Dispatch.request)
      rw [step_requests hp.handed (Bool.eq_false_iff.mpr hl) hstep]
      exact hp.toServer
    · rw [replies_append, responses_append, hresponses, List.append_nil, replies_map]
      exact hp.toClient.sendAll _
    · rw [serverEvents_append, serverEvents_map]
      exact step_accounted hp.accounted (step_moves hp.handed.queuedPlaces hstep)
  | toClient l =>
    obtain ⟨toClient, hstep, heq⟩ := Option.map_eq_some_iff.mp hs
    obtain ⟨rfl, rfl⟩ := Prod.mk.inj heq
    refine ⟨h.recorded.aside rfl rfl hquiet, ?_⟩
    rw [List.append_nil]
    exact ⟨hp.known, hp.toServer, hp.toClient.step hstep, hp.accounted, hp.handed⟩
  | onResponse =>
    obtain ⟨⟨m, toClient⟩, htake, heq⟩ := Option.map_eq_some_iff.mp hs
    obtain ⟨rfl, rfl⟩ := Prod.mk.inj heq
    have htabled : Recorded { s with toClient } tr :=
      ⟨h.recorded.ids, h.recorded.named, h.recorded.entry, h.recorded.settled, h.recorded.once,
        h.recorded.erased, h.recorded.own⟩
    exact ⟨htabled.responds m, hp.responds htake⟩

end

/-! ## Runs -/

theorem run_agreed {workerThreads maxPendingTasks : Nat} {ls : List ConversationLabel}
    {s : Conversation} {es : List ConversationEvent}
    (hok : RunOk (step g crc) FreshId (.new workerThreads maxPendingTasks) ls)
    (hrun : run (step g crc) (.new workerThreads maxPendingTasks) ls = some (s, es)) :
    Agreed crc s es :=
  runOk_induction (Agreed crc) (fun _ _ _ _ _ h hl hs => step_agreed h hl hs) []
    (agreed_new workerThreads maxPendingTasks) hok hrun

/-- Nothing waits anywhere. -/
def Conversation.rests (s : Conversation) : Prop :=
  s.toServer.Rests ∧ s.toClient.Rests ∧ (∀ r ∈ s.server.dispatches, r.place = .answered) ∧
    s.server.workerPool.tasks = [] ∧ s.server.workerPool.stop = false ∧
    ∀ w ∈ s.server.workerPool.workers, w = .waiting

instance (s : Conversation) : Decidable s.rests := inferInstanceAs (Decidable (_ ∧ _))

theorem server_stuck {s : RpcDispatcher} (hplaces : ∀ r ∈ s.dispatches, r.place = .answered)
    (htasks : s.workerPool.tasks = []) (hstop : s.workerPool.stop = false)
    (hworkers : ∀ w ∈ s.workerPool.workers, w = .waiting) (l : DispatchLabel)
    (hl : l.inner = true) : s.step g l = none := by
  have hplace : ∀ {d : Nat} {r}, s.dispatches[d]? = some r → r.place = .answered :=
    fun hd => hplaces _ (List.mem_of_getElem? hd)
  have hworker : ∀ {i : Nat} {w}, s.workerPool.workers[i]? = some w → w = .waiting :=
    fun hi => hworkers _ (List.mem_of_getElem? hi)
  have hidle : ∀ i, s.runningOn i = none := by
    intro i
    unfold RpcDispatcher.runningOn
    split
    · rename_i d hi
      exact absurd (hworker hi) (by simp)
    · rfl
  cases l with
  | dispatch | stop | stopAndDrain => exact absurd hl Bool.noConfusion
  | goOn d =>
    cases hd : s.dispatches[d]? with
    | none => simp [RpcDispatcher.step, hd]
    | some r => simp [RpcDispatcher.step, hd, RpcDispatcher.goOn, hplace hd]
  | take i =>
    cases hi : s.workerPool.workers[i]? with
    | none => simp [RpcDispatcher.step, RpcDispatcher.take, ThreadPool.take, hi]
    | some w =>
      obtain rfl := hworker hi
      simp [RpcDispatcher.step, RpcDispatcher.take, ThreadPool.take, hi, htasks, hstop]
  | invoke i => simp [RpcDispatcher.step, hidle]
  | finish i => simp [RpcDispatcher.step, hidle]
  | run d =>
    cases hd : s.dispatches[d]? with
    | none => simp [RpcDispatcher.step, hd]
    | some r => simp [RpcDispatcher.step, hd, hplace hd]
  | reply d ok data =>
    cases hd : s.dispatches[d]? with
    | none => simp [RpcDispatcher.step, hd]
    | some r => simp [RpcDispatcher.step, hd, hplace hd]

/-- Where nothing waits nothing can go on. -/
theorem stuck_of_rests {s : Conversation} (h : s.rests) (l : ConversationLabel)
    (hl : progress l = true) : s.step g crc l = none := by
  obtain ⟨hserver, hclient, hplaces, htasks, hstop, hworkers⟩ := h
  cases l with
  | toServer l => simp [Conversation.step, hserver.stuck crc l]
  | toClient l => simp [Conversation.step, hclient.stuck crc l]
  | onRequest => simp [Conversation.step, MessagePipe.take, hserver.messages]
  | onResponse => simp [Conversation.step, MessagePipe.take, hclient.messages]
  | server l => simp [Conversation.step, server_stuck hplaces htasks hstop hworkers l hl]
  | readMessage | send | cancelRead => exact absurd hl Bool.noConfusion

/-- A bound on the steps that are left while nobody calls. -/
def Conversation.work (s : Conversation) : Nat :=
  (9 * (perMessage + 1) + 1) * s.toServer.work +
    ((perMessage + 1) * s.server.work + s.toClient.work)

/-- A step of the dispatcher sends at most one message. -/
theorem messages_le {s s' : RpcDispatcher} {l : DispatchLabel} {es : List DispatchEvent}
    (h : Handed s) (hs : s.step g l = some (s', es)) :
    (es.filterMap DispatchEvent.message).length ≤ 1 := by
  cases step_moves h.queuedPlaces hs with
  | came _ _ _ _ hes | beside _ _ hes => simp [hes]
  | moved _ _ _ _ hmoves => cases hmoves <;> first | exact Nat.zero_le _ | exact Nat.le_refl _

theorem work_dispatch (s : RpcDispatcher) (conn : ConnId) (request response : TinyPBProtocol) :
    (s.dispatch conn (.tinyPB request) (.tinyPB response)).work = s.work + 9 := by
  simp only [RpcDispatcher.dispatch, RpcDispatcher.work, Tally.total, List.map_append,
    List.map_cons, List.map_nil, List.sum_append, List.sum_singleton, Place.weight]
  omega

theorem work_sendAll (p : MessagePipe) (ms : List TinyPBProtocol) :
    (ms.foldl MessagePipe.send p).work = p.work + ms.length * perMessage := by
  induction ms generalizing p with
  | nil => simp
  | cons m ms ih =>
    rw [List.foldl_cons, ih, pipe_send_work, List.length_cons, Nat.add_one_mul ms.length]
    omega

theorem progress_work {s s' : Conversation} {l : ConversationLabel}
    {es : List ConversationEvent} (h : Handed s.server) (hl : progress l = true)
    (hs : s.step g crc l = some (s', es)) : s'.work < s.work := by
  cases l with
  | readMessage | send | cancelRead => exact absurd hl Bool.noConfusion
  | toServer l =>
    obtain ⟨toServer, hstep, heq⟩ := Option.map_eq_some_iff.mp hs
    obtain ⟨rfl, -⟩ := Prod.mk.inj heq
    have hless := Nat.mul_lt_mul_of_pos_left (pipe_step_work hstep)
      (show 0 < 9 * (perMessage + 1) + 1 by omega)
    simp only [Conversation.work]
    omega
  | toClient l =>
    obtain ⟨toClient, hstep, heq⟩ := Option.map_eq_some_iff.mp hs
    obtain ⟨rfl, -⟩ := Prod.mk.inj heq
    have hless := pipe_step_work hstep
    simp only [Conversation.work]
    omega
  | onRequest =>
    obtain ⟨⟨m, toServer⟩, htake, heq⟩ := Option.map_eq_some_iff.mp hs
    obtain ⟨rfl, -⟩ := Prod.mk.inj heq
    simp only [Conversation.work, work_dispatch, ← pipe_take_work htake, Nat.mul_add, Nat.mul_one]
    omega
  | onResponse =>
    obtain ⟨⟨m, toClient⟩, htake, heq⟩ := Option.map_eq_some_iff.mp hs
    have hless := pipe_take_work htake
    have hsame : ({ s with toClient }.onResponse m).1.work = { s with toClient }.work := by
      unfold Conversation.onResponse
      split <;> rfl
    rw [show s' = ({ s with toClient }.onResponse m).1 from (congrArg Prod.fst heq).symm, hsame]
    simp only [Conversation.work]
    omega
  | server l =>
    obtain ⟨-, heq⟩ := Option.ite_none_left_eq_some.mp hs
    obtain ⟨⟨server, es'⟩, hstep, heq⟩ := Option.map_eq_some_iff.mp heq
    obtain ⟨rfl, -⟩ := Prod.mk.inj heq
    have hless : server.work + 1 ≤ s.server.work := step_work h hl hstep
    have hmul := Nat.mul_le_mul_left (perMessage + 1) hless
    have hone := Nat.mul_le_mul_right perMessage (messages_le h hstep)
    rw [Nat.mul_add, Nat.mul_one] at hmul
    rw [Nat.one_mul] at hone
    simp only [Conversation.work, work_sendAll]
    omega

/-- The loops, the workers and the closures run out of steps. -/
theorem run_progress {s s' : Conversation} {tr : List ConversationEvent}
    {ls : List ConversationLabel} {es : List ConversationEvent} (h : Agreed crc s tr)
    (hls : ∀ l ∈ ls, progress l = true) (hrun : run (step g crc) s ls = some (s', es)) :
    ls.length + s'.work ≤ s.work := by
  induction ls generalizing s tr es with
  | nil =>
    obtain ⟨rfl, -⟩ : s = s' ∧ [] = es := by simpa using hrun
    simp
  | cons l ls ih =>
    obtain ⟨s₁, es₁, es₂, hs, hrun', -⟩ := run_cons_eq_some.mp hrun
    have hl := hls l List.mem_cons_self
    have hfresh : s.FreshId l := by cases l <;> trivial
    have hless := progress_work h.piped.handed hl hs
    have hrest := ih (step_agreed h hfresh hs) (fun m hm => hls m (List.mem_cons_of_mem _ hm)) hrun'
    rw [List.length_cons]
    omega

/-- Where nothing can go on, and nobody has closed the connection, every call that sent its
    request has been completed, or has cancelled its read. -/
theorem Agreed.complete {s : Conversation} {tr : List ConversationEvent} (h : Agreed crc s tr)
    (hopen₁ : s.toServer.broken = none) (hopen₂ : s.toClient.broken = none)
    (hstuck : ∀ l, progress l = true → s.step g crc l = none) (k : Nat) (hk : k ∈ s.sends) :
    completions k tr = 1 ∨ .cancelled k ∈ tr := by
  have hup : (s.server.dispatches.map Dispatch.request).Perm (s.sent.map (sealed crc)) := by
    refine h.piped.toServer.delivered hopen₁ (fun l => ?_) ?_
    · simpa [Conversation.step] using hstuck (.toServer l) rfl
    · simpa [Conversation.step] using hstuck .onRequest rfl
  have hdown : (responses tr).Perm ((replies tr).map (sealed crc)) := by
    refine h.piped.toClient.delivered hopen₂ (fun l => ?_) ?_
    · simpa [Conversation.step] using hstuck (.toClient l) rfl
    · simpa [Conversation.step] using hstuck .onResponse rfl
  -- the request of the call was dispatched and answered
  obtain ⟨request, hat⟩ : ∃ request, s.requests[k]? = some request :=
    ⟨_, List.getElem?_eq_getElem (h.piped.known k hk)⟩
  have hne := h.recorded.named request (List.mem_of_getElem? hat)
  have hsent : sealed crc request ∈ s.server.dispatches.map Dispatch.request :=
    hup.mem_iff.mpr (List.mem_map_of_mem (List.mem_filterMap.mpr ⟨k, hk, hat⟩))
  obtain ⟨r, hr, hrequest⟩ := List.mem_map.mp hsent
  obtain ⟨d, hd⟩ := List.mem_iff_getElem?.mp hr
  have hserver : ∀ l : DispatchLabel, l.inner = true → s.server.step g l = none := by
    intro l hl
    have hnone := hstuck (.server l) hl
    have harrives : l.arrives = false := by
      cases l <;> first | rfl | exact absurd hl Bool.noConfusion
    simpa [Conversation.step, harrives] using hnone
  have hone := h.piped.accounted.sent d r hd
  rw [if_pos (answered_of_stuck h.piped.handed hserver hd)] at hone
  obtain ⟨c, reply, hreply⟩ := exists_sent (Nat.lt_of_lt_of_eq Nat.one_pos hone.symm)
  -- its response has come to the client, where it left no entry
  obtain ⟨r', hr', -, hlabelled⟩ := h.piped.accounted.answers d c reply hreply
  obtain rfl := Option.some.inj (hd.symm.trans hr')
  have hid : reply.msgId = request.msgId := by rw [hlabelled.1, hrequest, sealed_msgId hne]
  have hcame : sealed crc reply ∈ responses tr :=
    hdown.mem_iff.mpr (List.mem_map_of_mem (mem_replies.mpr ⟨d, c, mem_serverEvents.mp hreply⟩))
  have hnone := h.recorded.erased _ hcame
  rw [sealed_msgId (by rw [hid]; exact hne), hid] at hnone
  refine (h.recorded.settled k request hat hnone).imp_left fun hpos => ?_
  have honce := h.recorded.once k
  omega

/-- A call whose request and response come in pieces. -/
def oneCall : List ConversationLabel :=
  [.readMessage { msgId := [49], methodName := text "s.m" }, .send 0, .toServer (.encode 0),
    .toServer (.write 12), .toServer (.read 5), .toServer (.write 18), .toServer (.read 25),
    .onRequest, .server (.goOn 0), .server (.goOn 0), .server (.goOn 0), .server (.goOn 0),
    .server (.run 0), .server (.reply 0 true [1]), .toClient (.encode 0), .toClient (.write 31),
    .toClient (.read 9), .toClient (.read 22), .onResponse]

def directService : Registry := { oneService with defaultExecutionMode := .inline }

theorem oneCall_runs :
    RunOk (step directService calculateChecksum) FreshId (.new 1 1) oneCall ∧
      (run (step directService calculateChecksum) (.new 1 1) oneCall).map (fun r =>
        decide (r.1.rests ∧ r.1.toServer.broken = none ∧ r.1.toClient.broken = none ∧
          0 ∈ r.1.sends ∧ .cancelled 0 ∉ r.2)) = some true := by
  decide +kernel

end RocketRpc.Rpc
