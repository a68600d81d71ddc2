import RocketRpc.Common.MsgIdUtil
import RocketRpc.Rpc.ReadCallbacks
import RocketRpc.Rpc.ResponseMatching

/-
  No read callback is left of a call that is over.

  `ReadTable` is a client with the calls that have got it, from a pool or for themselves, with the
  messages that arrive for it, whatever their ids are, and with the ids of `GenMsgID`. An entry
  of its table is of a call that has its callback registered (`Tabled`), so where a call is over,
  and no other call that is not over has its id, there is no entry under this id; and a request
  is sent only after its callback was registered (`no_callback_left`).
-/

namespace RocketRpc.Rpc

open Machine World RocketRpc.Tcp RocketRpc.Coder RocketRpc.Common

variable {Message : Type} {parse : Bytes → Message × Bool}

structure ReadTable (Message : Type) where
  client : SharedClient Message := {}
  /-- The variables of `GenMsgID`, by thread. -/
  msgIdUtil : Nat → MsgIdUtil := fun _ => {}

inductive ReadLabel (Message : Type) where
  /-- A call begins that gets this client when it acquires one. -/
  | begins (k : Nat) (channel : RpcChannel) (args : Arguments) (call : Call)
      (controller : RpcController) (response : Message)
  | call (k : Nat) (l : Label)
  /-- Call `k` gets its message id, on this thread. -/
  | setMsgId (k thread : Nat) (dist : Fin kMsgIdLength → Fin 10)
  /-- `TcpClient::onMessage`: thread `t` runs the callback that is found. -/
  | onMessage (t : ThreadId) (msg : TinyPBProtocol)
  /-- `TcpClient::stop` clears the table. -/
  | stop

inductive ReadEvent where
  | registered (k : Nat) (id : Bytes)
  | sent (k : Nat) (id : Bytes)
  deriving DecidableEq, Repr

def Use.shows (k : Nat) (id : Bytes) : Use → List ReadEvent
  | .register => [.registered k id]
  | .send => [.sent k id]
  | _ => []

/-- The input is an id, which comes from `GenMsgID` only. -/
def Label.generated : Label → Bool
  | .thread _ (.generated _) => true
  | _ => false

namespace ReadTable

/-- A step of call `k`, which is `w`. -/
def advance (parse : Bytes → Message × Bool) (s : ReadTable Message) (k : Nat)
    (w : World Message) (l : Label) : Option (ReadTable Message × List ReadEvent) :=
  (w.step parse l).map fun r =>
    ({ s with client := (s.client.setCall k r.1).does k w.state.msgId (w.use l) },
      (w.use l).shows k w.state.msgId)

/-- The id for call `k`, and the variables of the thread: an id that is set stays. -/
def genMsgId (s : ReadTable Message) (w : World Message) (thread : Nat)
    (dist : Fin kMsgIdLength → Fin 10) : ReadTable Message × Bytes :=
  if w.controller.msgId.isEmpty then
    let u := (s.msgIdUtil thread).genMsgId dist
    ({ s with msgIdUtil := Function.update s.msgIdUtil thread u }, u.msgIdNo)
  else (s, w.controller.msgId)

def step (parse : Bytes → Message × Bool) (s : ReadTable Message) :
    ReadLabel Message → Option (ReadTable Message × List ReadEvent)
  | .begins k channel args call controller response =>
    if (s.client.calls k).isNone then
      some ({ s with
        client := s.client.setCall k (World.call channel args call controller response) }, [])
    else none
  | .call k l =>
    match s.client.calls k with
    | some w => if l.own && !l.generated then s.advance parse k w l else none
    | none => none
  | .setMsgId k thread dist =>
    match s.client.calls k with
    | some w =>
      (s.genMsgId w thread dist).1.advance parse k w
        (.thread caller (.generated (s.genMsgId w thread dist).2))
    | none => none
  | .onMessage t msg =>
    match s.client.readCallbacks msg.msgId with
    | none => some (s, [])
    | some j =>
      match s.client.calls j with
      | some v =>
        (v.step parse (.responseArrives t (.tinyPB msg))).map fun r =>
          ({ s with
            client := ({ s.client with
              readCallbacks := Function.update s.client.readCallbacks msg.msgId none }).setCall j
                r.1 }, [])
      | none => none
  | .stop =>
    some ({ s with client := { s.client with
      calls := fun j => (s.client.calls j).map World.dropRead
      readCallbacks := fun _ => none } }, [])

end ReadTable

/-- A call that has an id and is not over. -/
def World.Live (w : World Message) : Prop := w.state.msgId ≠ [] ∧ ¬ w.Over

/-- A request is sent after its callback was registered. -/
def SentLast (tr : List ReadEvent) (e : ReadEvent) : Prop :=
  ∀ k id, e = .sent k id → .registered k id ∈ tr

/-- No callback is left of a call that is over, where no other live call has its id. -/
structure NoneLeft (s : ReadTable Message) (tr : List ReadEvent) : Prop where
  cancelled : ∀ k w, s.client.calls k = some w → w.Over →
    (∀ j v, j ≠ k → s.client.calls j = some v → v.Live → v.state.msgId ≠ w.state.msgId) →
    s.client.readCallbacks w.state.msgId = none
  sent : EachAfter SentLast tr

/-! ## The table -/

/-- The entries of the table and the calls fit together. -/
structure Tabled (s : ReadTable Message) (tr : List ReadEvent) : Prop where
  calls : ∀ k w, s.client.calls k = some w → Registered w
  entry : ∀ id j, s.client.readCallbacks id = some j → ∃ w, s.client.calls j = some w ∧
    w.state.msgId = id ∧ w.client.readCallback = true
  ids : ∀ thread, (s.msgIdUtil thread).msgIdNo = [] ∨ IsMsgId (s.msgIdUtil thread).msgIdNo
  sending : ∀ k w, s.client.calls k = some w → w.Sending → .registered k w.state.msgId ∈ tr
  sent : EachAfter SentLast tr

theorem tabled_new : Tabled ({} : ReadTable Message) [] := by
  refine ⟨by simp, by simp, fun _ => Or.inl rfl, by simp, eachAfter_nil⟩

theorem Tabled.noneLeft {s : ReadTable Message} {tr : List ReadEvent} (h : Tabled s tr) :
    NoneLeft s tr where
  cancelled := by
    intro k w hw hover hids
    refine Option.eq_none_iff_forall_ne_some.mpr fun j hj => ?_
    obtain ⟨v, hv, hid, hread⟩ := h.entry _ j hj
    -- whoever has the entry is not over
    have hlive : v.Live := by
      refine ⟨((h.calls j v hv).known (Or.inl hread)).2, fun hv' => ?_⟩
      exact absurd (((h.calls j v hv).over hv').symm.trans hread) (by simp)
    have hjk : j ≠ k := by
      rintro rfl
      obtain rfl := Option.some.inj (hw.symm.trans hv)
      exact hlive.2 hover
    exact hids j v hjk hv hlive hid
  sent := h.sent

section

variable {s : ReadTable Message} {tr : List ReadEvent} {k : Nat} {w w' : World Message}
  {use : Use}

theorem ReadStep.sameId (h : ReadStep w w' use)
    (hne : w.client.readCallback = true ∨ w.Sending ∨ use ≠ .none) :
    w'.state.msgId = w.state.msgId := by
  refine h.msgId.resolve_right fun ⟨hread, hsending, huse⟩ => ?_
  rcases hne with hr | hs | hu
  · exact absurd (hread.symm.trans hr) (by simp)
  · exact hsending hs
  · exact hu huse

/-- A step of a call. -/
theorem Tabled.advance (h : Tabled s tr) (hk : s.client.calls k = some w)
    (hstep : ReadStep w w' use) :
    Tabled { s with client := (s.client.setCall k w').does k w.state.msgId use }
      (tr ++ use.shows k w.state.msgId) := by
  have htook := took_does s.client k w' w.state.msgId use
  have hcalls : ∀ j v', ((s.client.setCall k w').does k w.state.msgId use).calls j = some v' →
      j = k ∧ v' = w' ∨ j ≠ k ∧ ∃ v, s.client.calls j = some v ∧ Alike v v' := by
    intro j v' hv'
    by_cases hjk : j = k
    · rw [hjk, htook.self] at hv'
      exact Or.inl ⟨hjk, (Option.some.inj hv').symm⟩
    · exact Or.inr ⟨hjk, htook.alike hjk hv'⟩
  refine ⟨?_, ?_, h.ids, ?_, ?_⟩
  · intro j v' hv'
    rcases hcalls j v' hv' with ⟨-, rfl⟩ | ⟨-, v, hv, rfl | rfl⟩
    · exact hstep.registered
    · exact h.calls j _ hv
    · exact (h.calls j v hv).dropRead
  · intro id j hj
    rcases htook.entries id j hj with ⟨rfl, rfl, rfl⟩ | ⟨hold, huse⟩
    · exact ⟨w', htook.self, hstep.sameId (Or.inr (Or.inr (by decide))), hstep.callback⟩
    · obtain ⟨v, hv, hid, hread⟩ := h.entry id j hold
      by_cases hjk : j = k
      · -- the entry of the call itself is neither new nor erased
        subst hjk
        obtain rfl := Option.some.inj (hk.symm.trans hv)
        refine ⟨w', htook.self, (hstep.sameId (Or.inl hread)).trans hid, ?_⟩
        rw [hstep.callback]
        rcases huse hid.symm with rfl | rfl <;> exact hread
      · obtain ⟨v', hv', -, hsame⟩ := htook.keeps hjk hv
        rcases hsame with rfl | ⟨hentry, hset⟩
        · exact ⟨v', hv', hid, hread⟩
        · obtain ⟨u, hu, huid, -⟩ := h.entry _ j hentry
          obtain rfl := Option.some.inj (hv.symm.trans hu)
          rcases huse (hid.symm.trans huid) with rfl | rfl <;> exact absurd hset (by decide)
  · intro j v' hv' hsending
    rcases hcalls j v' hv' with ⟨rfl, rfl⟩ | ⟨-, v, hv, rfl | rfl⟩
    · rcases hstep.sending hsending with hs | rfl
      · rw [hstep.sameId (Or.inr (Or.inl hs))]
        exact List.mem_append_left _ (h.sending j w hk hs)
      · rw [hstep.sameId (Or.inr (Or.inr (by decide)))]
        exact List.mem_append_right _ (by simp [Use.shows])
    · exact List.mem_append_left _ (h.sending j _ hv hsending)
    · exact List.mem_append_left _ (h.sending j v hv hsending)
  · cases huse : use with
    | none | cancel =>
      simpa [Use.shows] using h.sent
    | register => exact h.sent.concat fun _ _ heq => absurd heq (by simp)
    | send =>
      refine h.sent.concat fun j id heq => ?_
      obtain ⟨rfl, rfl⟩ := ReadEvent.sent.inj heq
      exact h.sending k w hk (hstep.send huse)

end

/-- A call begins. -/
theorem Tabled.begins {s : ReadTable Message} {tr : List ReadEvent} {k : Nat}
    {w : World Message} (h : Tabled s tr) (hk : s.client.calls k = none) (hw : Registered w)
    (hsending : ¬ w.Sending) : Tabled { s with client := s.client.setCall k w } tr := by
  have hcalls : ∀ j v, (s.client.setCall k w).calls j = some v →
      v = w ∨ s.client.calls j = some v := by
    intro j v hv
    have hu : (if j = k then some w else s.client.calls j) = some v :=
      (Function.update_apply s.client.calls k (some w) j).symm.trans hv
    split at hu
    · exact Or.inl (Option.some.inj hu).symm
    · exact Or.inr hu
  refine ⟨?_, ?_, h.ids, ?_, h.sent⟩
  · intro j v hv
    rcases hcalls j v hv with rfl | hv
    · exact hw
    · exact h.calls j v hv
  · intro id j hj
    obtain ⟨v, hv, hrest⟩ := h.entry id j hj
    have hjk : j ≠ k := by
      rintro rfl
      exact absurd (hk.symm.trans hv) (by simp)
    exact ⟨v, (Function.update_of_ne hjk _ _).trans hv, hrest⟩
  · intro j v hv hs
    rcases hcalls j v hv with rfl | hv
    · exact absurd hs hsending
    · exact h.sending j v hv hs

/-- The callback of an entry is taken out and run. -/
theorem Tabled.takes {s : ReadTable Message} {tr : List ReadEvent} {id : Bytes} {j : Nat}
    {v v' : World Message} {t : ThreadId} {msg : AbstractProtocol} {es : List (Event Message)}
    (h : Tabled s tr) (hj : s.client.readCallbacks id = some j)
    (hv : s.client.calls j = some v)
    (hstep : World.step parse v (.responseArrives t msg) = some (v', es)) :
    Tabled { s with
      client := ({ s.client with
        readCallbacks := Function.update s.client.readCallbacks id none }).setCall j v' } tr := by
  obtain ⟨hreg, hstate, hsends⟩ := (h.calls j v hv).arrival hstep
  have hcalls : ∀ i u, (s.client.setCall j v').calls i = some u →
      i = j ∧ u = v' ∨ s.client.calls i = some u := by
    intro i u hu
    have hu' : (if i = j then some v' else s.client.calls i) = some u :=
      (Function.update_apply s.client.calls j (some v') i).symm.trans hu
    split at hu'
    · rename_i hij
      exact Or.inl ⟨hij, (Option.some.inj hu').symm⟩
    · exact Or.inr hu'
  refine ⟨?_, ?_, h.ids, ?_, h.sent⟩
  · intro i u hu
    rcases hcalls i u hu with ⟨-, rfl⟩ | hu
    · exact hreg
    · exact h.calls i u hu
  · intro id' i hi
    have hi' : (if id' = id then none else s.client.readCallbacks id') = some i :=
      (Function.update_apply s.client.readCallbacks id none id').symm.trans hi
    split at hi'
    · exact absurd hi' (by simp)
    · rename_i hid
      obtain ⟨u, hu, huid, hread⟩ := h.entry id' i hi'
      -- the call of another entry has another id
      have hij : i ≠ j := by
        rintro rfl
        obtain ⟨u', hu', huid', -⟩ := h.entry id i hj
        obtain rfl := Option.some.inj (hu.symm.trans hu')
        exact hid (huid.symm.trans huid')
      exact ⟨u, (Function.update_of_ne hij _ _).trans hu, huid, hread⟩
  · intro i u hu hs
    rcases hcalls i u hu with ⟨rfl, rfl⟩ | hu
    · rw [hstate]
      exact h.sending i v hv (hsends hs)
    · exact h.sending i u hu hs

theorem step_tabled {s s' : ReadTable Message} {tr es : List ReadEvent} {l : ReadLabel Message}
    (h : Tabled s tr) (hstep : s.step parse l = some (s', es)) : Tabled s' (tr ++ es) := by
  cases l with
  | begins k channel args call controller response =>
    simp only [ReadTable.step] at hstep
    split at hstep
    · rename_i hnone
      obtain ⟨rfl, rfl⟩ := Prod.mk.inj (Option.some.inj hstep)
      obtain ⟨hreg, hsending⟩ := call_registered channel args call controller response
      rw [List.append_nil]
      exact h.begins (Option.isNone_iff_eq_none.mp hnone) hreg hsending
    · exact absurd hstep (by simp)
  | call k l =>
    simp only [ReadTable.step] at hstep
    split at hstep
    · rename_i w hk
      split at hstep
      · rename_i hown
        rw [Bool.and_eq_true, Bool.not_eq_true'] at hown
        obtain ⟨⟨w', es'⟩, hw, heq⟩ := Option.map_eq_some_iff.mp hstep
        obtain ⟨rfl, rfl⟩ := Prod.mk.inj heq
        refine h.advance hk (step_readStep (h.calls k w hk) (fun t id hl => ?_) hown.1 hw)
        rw [hl] at hown
        exact absurd hown.2 (by simp [Label.generated])
      · exact absurd hstep (by simp)
    · exact absurd hstep (by simp)
  | setMsgId k thread dist =>
    simp only [ReadTable.step] at hstep
    split at hstep
    · rename_i w hk
      -- the id is one of twenty digits, or the one that is set
      have hid : (s.genMsgId w thread dist).2 ≠ [] ∧ Tabled (s.genMsgId w thread dist).1 tr := by
        unfold ReadTable.genMsgId
        split
        · have hmsgId := genMsgId_isMsgId (h.ids thread) dist
          refine ⟨hmsgId.ne_nil, h.calls, h.entry, fun u => ?_, h.sending, h.sent⟩
          dsimp only
          by_cases hu : u = thread
          · rw [hu, Function.update_self]
            exact Or.inr hmsgId
          · rw [Function.update_of_ne hu]
            exact h.ids u
        · rename_i hset
          exact ⟨by simpa using hset, h⟩
      have hclient : (s.genMsgId w thread dist).1.client = s.client := by
        unfold ReadTable.genMsgId
        split <;> rfl
      obtain ⟨⟨w', es'⟩, hw, heq⟩ := Option.map_eq_some_iff.mp hstep
      obtain ⟨rfl, rfl⟩ := Prod.mk.inj heq
      have hk' : (s.genMsgId w thread dist).1.client.calls k = some w := by rw [hclient, hk]
      refine hid.2.advance hk' (step_readStep (h.calls k w hk) (fun t id hl => ?_) rfl hw)
      obtain ⟨-, hl⟩ := Label.thread.inj hl
      rw [← Input.generated.inj hl]
      exact hid.1
    · exact absurd hstep (by simp)
  | onMessage t msg =>
    simp only [ReadTable.step] at hstep
    split at hstep
    · obtain ⟨rfl, rfl⟩ := Prod.mk.inj (Option.some.inj hstep)
      rwa [List.append_nil]
    · rename_i j hj
      split at hstep
      · rename_i v hv
        obtain ⟨⟨v', es'⟩, hw, heq⟩ := Option.map_eq_some_iff.mp hstep
        obtain ⟨rfl, rfl⟩ := Prod.mk.inj heq
        rw [List.append_nil]
        exact h.takes hj hv hw
      · exact absurd hstep (by simp)
  | stop =>
    obtain ⟨rfl, rfl⟩ := Prod.mk.inj (Option.some.inj hstep)
    rw [List.append_nil]
    refine ⟨?_, fun _ _ hj => absurd hj (by simp), h.ids, ?_, h.sent⟩
    · intro j v hv
      obtain ⟨u, hu, rfl⟩ := Option.map_eq_some_iff.mp hv
      exact (h.calls j u hu).dropRead
    · intro j v hv hs
      obtain ⟨u, hu, rfl⟩ := Option.map_eq_some_iff.mp hv
      exact h.sending j u hu hs

/-! ## Main result -/

/-- In every state that the calls on a client can reach, no callback is left of a call that is
    over, and every request was sent after its callback was registered. -/
theorem no_callback_left (parse : Bytes → Message × Bool) (ls : List (ReadLabel Message))
    (s : ReadTable Message) (tr : List ReadEvent)
    (hrun : run (ReadTable.step parse) {} ls = some (s, tr)) : NoneLeft s tr := by
  have h := run_induction Tabled (fun _ _ _ _ _ hp hs => step_tabled hp hs) [] tabled_new hrun
  exact h.noneLeft

/-- The timer cancels before the callback is registered, and the call sees it afterwards. -/
def cancelledFirst : List (ReadLabel Nat) :=
  [ReadLabel.begins 0 ⟨true, true, false, []⟩ ⟨true, true, true, true⟩ (.callMethod true) {} 0,
    .call 0 (.thread 0 (.found true)), .setMsgId 0 7 (fun _ => ⟨4, by decide⟩),
    .call 0 (.thread 0 (.serialized true)), .call 0 (.thread 0 .none), .call 0 (.thread 0 .none),
    .call 0 (.thread 0 .none), .call 0 (.timerFires 1), .call 0 (.thread 1 .none),
    .call 0 (.thread 1 .none), .call 0 (.thread 1 .none), .call 0 (.thread 0 .none)] ++
  List.replicate 9 (ReadLabel.call 0 (.thread 1 .none)) ++ [ReadLabel.call 0 (.thread 0 .none)]

theorem no_callback_left_cancelled_first :
    ∃ s tr, run (ReadTable.step fun data => (data.length, true)) {} cancelledFirst =
        some (s, tr) ∧ tr = [.registered 0 (List.replicate 20 52)] ∧
      s.client.readCallbacks (List.replicate 20 52) = none ∧ NoneLeft s tr := by
  have hrun : (run (ReadTable.step fun data => (data.length, true)) {} cancelledFirst).map
      (fun r => decide (r.2 = [.registered 0 (List.replicate 20 52)] ∧
        r.1.client.readCallbacks (List.replicate 20 52) = none)) = some true := by
    decide +kernel
  obtain ⟨⟨s, tr⟩, hs, hdone⟩ := Option.map_eq_some_iff.mp hrun
  obtain ⟨htr, hnone⟩ := of_decide_eq_true hdone
  exact ⟨s, tr, hs, htr, hnone, no_callback_left _ cancelledFirst s tr hs⟩

end RocketRpc.Rpc
