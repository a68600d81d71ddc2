import RocketRpc.Lib.Tally
import RocketRpc.Net.CloseCallback
import RocketRpc.Net.Delivery
import RocketRpc.Net.TcpServer

/-
  The set of connections of a server and the counts of its loops.

  A connection counts from the `fetch_add` of `onAccept` to the `fetch_sub` of its close
  callback, and it is in `m_connections` from its insertion to its erasure, if the erasure is
  behind the insertion: its loop may come to the close callback before `onAccept` has
  inserted it. In the runs where that does not happen the set is exact.
-/

namespace RocketRpc.Net

open RocketRpc.Tcp Machine

variable {crc : Bytes → UInt32}

namespace Accepted

/-- The connection is in the count of its loop. -/
def counted (r : Accepted) : Bool :=
  r.acceptAt ≠ .counting &&
    (r.removeAt = .notCalled || r.removeAt = .erasing || r.removeAt = .uncounting)

/-- The connection is inserted and not erased. -/
def listed (r : Accepted) : Bool :=
  r.acceptAt = .returned && (r.removeAt = .notCalled || r.removeAt = .erasing)

/-- Nobody but `onAccept` has the connection. -/
def fresh (r : Accepted) : Bool :=
  r.removeAt = .notCalled && !r.establishQueued && !r.established && !r.destroyQueued

/-- The close callback is only called by a connection that is established and closes, and
    under the condition its erasure waits for `onAccept`. -/
structure Ok (r : Accepted) : Prop where
  fresh : r.acceptAt = .counting ∨ r.acceptAt = .queueing → r.fresh = true
  closed : r.removeAt ≠ .notCalled → r.world.conn.state = .closed
  waits : r.acceptAt ≠ .returned → r.removeAt = .notCalled ∨ r.removeAt = .erasing

end Accepted

theorem Accepted.Ok.notCalled {r : Accepted} (h : r.Ok)
    (hp : r.acceptAt = .counting ∨ r.acceptAt = .queueing) : r.removeAt = .notCalled := by
  have hfresh := h.fresh hp
  simp only [Accepted.fresh, Bool.and_eq_true, decide_eq_true_eq] at hfresh
  exact hfresh.1.1.1

/-- A connection whose tasks are queued or run is past them in `onAccept`. -/
theorem Accepted.Ok.placed {r : Accepted} (h : r.Ok)
    (hq : r.establishQueued = true ∨ r.established = true ∨ r.destroyQueued = true) :
    r.acceptAt ≠ .counting ∧ r.acceptAt ≠ .queueing := by
  refine not_or.mp fun hp => ?_
  have hfresh := h.fresh hp
  rcases hq with hq | hq | hq <;> simp [Accepted.fresh, hq] at hfresh

/-- A close callback that is past its erasure comes after `onAccept`. -/
theorem Accepted.Ok.returned {r : Accepted} (h : r.Ok) (hcalled : r.removeAt ≠ .notCalled)
    (herased : r.removeAt ≠ .erasing) : r.acceptAt = .returned := by
  by_contra hne
  exact (h.waits hne).elim hcalled herased

/-- The set is exact, and so are the counts. -/
structure Listed (s : TcpServer) : Prop where
  ok : ∀ (d : Nat) r, s.accepted[d]? = some r → r.Ok
  mem : ∀ d, d ∈ s.connections ↔ ∃ r, s.accepted[d]? = some r ∧ r.listed = true
  count : Tally.Exact Accepted.loop Accepted.counted s.accepted s.connectionCount

/-- The condition on a step: the close callback erases its connection only after `onAccept`
    has returned. -/
def InsertedFirst (s : TcpServer) : ServerLabel → Prop
  | .removeConnection d =>
    ∀ r ∈ s.accepted[d]?, r.removeAt = .erasing → r.acceptAt = .returned
  | _ => True

instance (s : TcpServer) : DecidablePred (InsertedFirst s)
  | .removeConnection d =>
    inferInstanceAs (Decidable
      (∀ r ∈ s.accepted[d]?, r.removeAt = .erasing → r.acceptAt = .returned))
  | .accept _ | .onAccept | .connectEstablished _ | .connection _ _ | .connectDestroyed _ =>
    inferInstanceAs (Decidable True)

variable {s s' : TcpServer} {d : Nat} {r r' : Accepted}

theorem Listed.mem_iff (h : Listed s) (hd : s.accepted[d]? = some r) :
    d ∈ s.connections ↔ r.listed = true := by
  rw [h.mem d, hd]
  simp

/-- One connection goes on. -/
theorem Listed.put (h : Listed s) (hd : s.accepted[d]? = some r)
    (haccepted : s'.accepted = s.accepted.set d r') (hok : r'.Ok)
    (hself : d ∈ s'.connections ↔ r'.listed = true)
    (hothers : ∀ d', d' ≠ d → (d' ∈ s'.connections ↔ d' ∈ s.connections))
    (hcount : Tally.Exact Accepted.loop Accepted.counted (s.accepted.set d r') s'.connectionCount) :
    Listed s' := by
  have hlt := (List.getElem?_eq_some_iff.mp hd).1
  refine ⟨fun d' q hq => ?_, fun d' => ?_, haccepted ▸ hcount⟩
  · rw [haccepted] at hq
    by_cases hdd : d' = d
    · subst hdd
      rw [List.getElem?_set_self hlt] at hq
      exact Option.some.inj hq ▸ hok
    · rw [List.getElem?_set_ne (Ne.symm hdd)] at hq
      exact h.ok d' q hq
  · rw [haccepted]
    by_cases hdd : d' = d
    · subst hdd
      rw [hself, List.getElem?_set_self hlt]
      simp
    · rw [hothers d' hdd, h.mem d', List.getElem?_set_ne (Ne.symm hdd)]

/-- A connection goes on that is as much in the set and in the count as before. -/
theorem Listed.put_same (h : Listed s) (hd : s.accepted[d]? = some r) (hok : r'.Ok)
    (hloop : r'.loop = r.loop) (hlisted : r'.listed = r.listed)
    (hcounted : r'.counted = r.counted) : Listed (s.put d r') := by
  refine h.put hd rfl hok ?_ (fun _ _ => Iff.rfl) (h.count.set hd hloop hcounted)
  rw [hlisted]
  exact h.mem_iff hd

/-! ## Steps -/

theorem accept_listed {valid : Bool} (h : Listed s) (hs : s.accept valid = some s') :
    Listed s' := by
  obtain ⟨-, hs⟩ := Option.ite_none_right_eq_some.mp hs
  split at hs <;> obtain rfl := Option.some.inj hs
  · exact h
  refine ⟨fun d r hr => ?_, fun d => ?_, h.count.append rfl⟩
  · dsimp only at hr
    rw [List.getElem?_append] at hr
    split at hr
    · exact h.ok d r hr
    · obtain rfl := List.mem_singleton.mp (List.mem_of_getElem? hr)
      exact ⟨fun _ => rfl, fun hne => absurd rfl hne, fun _ => Or.inl rfl⟩
  · refine (h.mem d).trans (exists_congr fun r => and_congr_left fun hl => ?_)
    dsimp only
    rw [List.getElem?_append]
    split
    · exact Iff.rfl
    · rename_i hle
      rw [List.getElem?_eq_none (Nat.le_of_not_lt hle)]
      refine ⟨nofun, fun hr => ?_⟩
      obtain rfl := List.mem_singleton.mp (List.mem_of_getElem? hr)
      exact absurd hl (by simp [Accepted.listed])

theorem onAccept_listed (h : Listed s) (hd : s.accepted[d]? = some r)
    (hs : s.onAccept d r = some s') : Listed s' := by
  have hok := h.ok d r hd
  unfold TcpServer.onAccept at hs
  cases ha : r.acceptAt with
  | counting =>
    have hfresh := hok.fresh (Or.inl ha)
    have hnot := hok.notCalled (Or.inl ha)
    simp only [ha] at hs
    obtain rfl := Option.some.inj hs
    refine h.put hd rfl ⟨fun _ => ?_, fun hne => absurd hnot hne, fun _ => Or.inl hnot⟩
      ?_ (fun _ _ => Iff.rfl) (h.count.enter hd rfl ?_ ?_)
    · simpa [Accepted.fresh] using hfresh
    · refine (h.mem_iff hd).trans ?_
      simp [Accepted.listed, ha]
    · simp [Accepted.counted, ha]
    · simp [Accepted.counted, hnot]
  | queueing =>
    have hnot := hok.notCalled (Or.inr ha)
    simp only [ha] at hs
    obtain rfl := Option.some.inj hs
    exact h.put_same hd ⟨by simp, hok.closed, fun _ => Or.inl hnot⟩ rfl
      (by simp [Accepted.listed, ha]) (by simp [Accepted.counted, ha])
  | inserting =>
    have hwaits := hok.waits (by simp [ha])
    simp only [ha] at hs
    obtain rfl := Option.some.inj hs
    refine h.put hd rfl ⟨by simp, hok.closed, by simp⟩ ?_ (fun d' hne => ?_)
      (h.count.set hd rfl (by simp [Accepted.counted, ha]))
    · refine ⟨fun _ => ?_, fun _ => Finset.mem_insert_self d _⟩
      rcases hwaits with hr | hr <;> simp [Accepted.listed, hr]
    · exact Finset.mem_insert.trans (or_iff_right hne)
  | returned =>
    simp only [ha] at hs
    exact nomatch hs

/-- A step of a connection that `onAccept` has handed to its loop. -/
theorem connection_listed {r₀ : Accepted} {l : Label} {es : List (Nat × Event)} (h : Listed s)
    (hd : s.accepted[d]? = some r₀)
    (hr : r.loop = r₀.loop ∧ r.world = r₀.world ∧ r.acceptAt = r₀.acceptAt ∧
      r.removeAt = r₀.removeAt)
    (hplace : r.acceptAt ≠ .counting ∧ r.acceptAt ≠ .queueing)
    (hs : s.connection crc d r l = some (s', es)) : Listed s' := by
  obtain ⟨hloop, hworld, haccept, hremove⟩ := hr
  have hok := h.ok d r₀ hd
  obtain ⟨⟨world, es'⟩, hstep, heq⟩ := Option.map_eq_some_iff.mp hs
  obtain ⟨rfl, -⟩ := Prod.mk.inj heq
  by_cases hclose : .called .close ∈ es'
  · obtain ⟨hopen, hclosed, -⟩ := (step_closes hstep).closes hclose
    have hnot : r₀.removeAt = .notCalled := by
      by_contra hne
      exact hopen (hworld ▸ hok.closed hne)
    refine h.put_same hd ⟨?_, fun _ => hclosed, fun _ => Or.inr (if_pos hclose)⟩ hloop ?_ ?_
    · exact fun hp => absurd hp (not_or.mpr hplace)
    · simp [Accepted.listed, hclose, hnot, haccept]
    · simp [Accepted.counted, hclose, hnot, haccept]
  · refine h.put_same hd ⟨?_, fun hne => ?_, ?_⟩ hloop ?_ ?_
    · exact fun hp => absurd hp (not_or.mpr hplace)
    · dsimp only at hne
      rw [if_neg hclose, hremove] at hne
      exact (step_closed (hworld ▸ hok.closed hne) hstep).1
    · dsimp only
      rw [if_neg hclose, hremove, haccept]
      exact hok.waits
    · simp [Accepted.listed, hclose, haccept, hremove]
    · simp [Accepted.counted, hclose, haccept, hremove]

theorem removeConnection_listed (h : Listed s) (hd : s.accepted[d]? = some r)
    (hok : r.removeAt = .erasing → r.acceptAt = .returned)
    (hs : s.removeConnection crc d r = some s') : Listed s' := by
  have hr := h.ok d r hd
  unfold TcpServer.removeConnection at hs
  cases hm : r.removeAt with
  | erasing =>
    simp only [hm] at hs
    obtain rfl := Option.some.inj hs
    refine h.put hd rfl ⟨fun hp => ?_, fun _ => hr.closed (by simp [hm]),
      fun hne => absurd (hok hm) hne⟩ ?_ (fun d' hne => ?_) (h.count.set hd rfl ?_)
    · exact absurd hp (by simp [hok hm])
    · simp [TcpServer.put, Accepted.listed]
    · exact Finset.mem_erase.trans (and_iff_right hne)
    · simp [Accepted.counted, hm]
  | uncounting =>
    have hreturned := hr.returned (by simp [hm]) (by simp [hm])
    simp only [hm] at hs
    obtain rfl := Option.some.inj hs
    refine h.put hd rfl ⟨fun hp => absurd hp (by simp [hreturned]),
      fun _ => hr.closed (by simp [hm]), fun hne => absurd hreturned hne⟩ ?_
      (fun _ _ => Iff.rfl) (h.count.leave hd rfl ?_ ?_)
    · refine (h.mem_iff hd).trans ?_
      simp [Accepted.listed, hm]
    · simp [Accepted.counted, hm, hreturned]
    · simp [Accepted.counted, hreturned]
  | queueing =>
    have hreturned := hr.returned (by simp [hm]) (by simp [hm])
    simp only [hm] at hs
    obtain ⟨⟨world, es⟩, hstep, rfl⟩ := Option.map_eq_some_iff.mp hs
    refine h.put_same hd ⟨fun hp => absurd hp (by simp [hreturned]), fun _ => ?_,
      fun hne => absurd hreturned hne⟩ rfl ?_ ?_
    · exact (step_closed (hr.closed (by simp [hm])) hstep).1
    · simp [Accepted.listed, hm]
    · simp [Accepted.counted, hm, hreturned]
  | notCalled | returned =>
    simp only [hm] at hs
    exact nomatch hs

/-- A step of the server under the condition. -/
theorem step_listed {l : ServerLabel} {es : List (Nat × Event)} (h : Listed s)
    (hok : InsertedFirst s l) (hs : s.step crc l = some (s', es)) : Listed s' := by
  cases l with
  | accept valid =>
    obtain ⟨s₁, ha, heq⟩ := Option.map_eq_some_iff.mp hs
    obtain ⟨rfl, -⟩ := Prod.mk.inj heq
    exact accept_listed h ha
  | onAccept =>
    obtain ⟨s₁, ha, heq⟩ := Option.map_eq_some_iff.mp hs
    obtain ⟨rfl, -⟩ := Prod.mk.inj heq
    obtain ⟨r, hr, ha⟩ := Option.bind_eq_some_iff.mp ha
    exact onAccept_listed h (List.getLast?_eq_getElem?.symm.trans hr) ha
  | connectEstablished d =>
    obtain ⟨r, hd, hr⟩ := Option.bind_eq_some_iff.mp hs
    obtain ⟨⟨hqueued, -⟩, hr⟩ := Option.ite_none_right_eq_some.mp hr
    have hplaced := (h.ok d r hd).placed (Or.inl hqueued)
    refine connection_listed h hd ?_ ?_ hr
    · exact ⟨rfl, rfl, rfl, rfl⟩
    · exact hplaced
  | connection d l =>
    obtain ⟨r, hd, hr⟩ := Option.bind_eq_some_iff.mp hs
    obtain ⟨⟨hestablished, -⟩, hr⟩ := Option.ite_none_right_eq_some.mp hr
    have hplaced := (h.ok d r hd).placed (Or.inr (Or.inl hestablished))
    refine connection_listed h hd ?_ ?_ hr
    · exact ⟨rfl, rfl, rfl, rfl⟩
    · exact hplaced
  | removeConnection d =>
    obtain ⟨s₁, ha, heq⟩ := Option.map_eq_some_iff.mp hs
    obtain ⟨rfl, -⟩ := Prod.mk.inj heq
    obtain ⟨r, hd, ha⟩ := Option.bind_eq_some_iff.mp ha
    exact removeConnection_listed h hd (hok r hd) ha
  | connectDestroyed d =>
    obtain ⟨r, hd, hr⟩ := Option.bind_eq_some_iff.mp hs
    obtain ⟨⟨hqueued, -⟩, hr⟩ := Option.ite_none_right_eq_some.mp hr
    have hplaced := (h.ok d r hd).placed (Or.inr (Or.inr hqueued))
    refine connection_listed h hd ?_ ?_ hr
    · exact ⟨rfl, rfl, rfl, rfl⟩
    · exact hplaced

/-! ## Runs -/

/-- No call of `onAccept` or of a close callback is under way. -/
def Quiescent (s : TcpServer) : Prop :=
  ∀ r ∈ s.accepted, r.acceptAt = .returned ∧ r.removing = false

/-- In a run whose close callbacks erase their connections after the insertion: a connection
    whose `onAccept` and close callback have returned is not in the set, and when no such call
    is under way, the set is the connections whose close callback has not run, and the count
    of each loop is the number of those that are assigned to it. -/
theorem connection_set_exact (crc : Bytes → UInt32) (callbacks : Callbacks)
    (highWaterMark ioThreads : Nat) (ls : List ServerLabel) (s : TcpServer)
    (tr : List (Nat × Event))
    (hok : RunOk (TcpServer.step crc) InsertedFirst (.new callbacks highWaterMark ioThreads) ls)
    (hrun : run (TcpServer.step crc) (.new callbacks highWaterMark ioThreads) ls = some (s, tr)) :
    (∀ (d : Nat) r, s.accepted[d]? = some r → r.acceptAt = .returned → r.removeAt = .returned →
        d ∉ s.connections) ∧
      (Quiescent s →
        (∀ d, d ∈ s.connections ↔ ∃ r, s.accepted[d]? = some r ∧ r.removeAt = .notCalled) ∧
        ∀ loop, s.connectionCount loop =
          s.accepted.countP fun r => r.loop = loop ∧ r.removeAt = .notCalled) := by
  have hnew : Listed (.new callbacks highWaterMark ioThreads) :=
    ⟨fun d r hd => absurd hd (by simp [TcpServer.new]), fun d => by simp [TcpServer.new],
      Tally.exact_nil⟩
  have h : Listed s := runOk_induction (fun s _ => Listed s)
    (fun _ _ _ _ _ h hok hs => step_listed h hok hs) [] hnew hok hrun
  refine ⟨fun d r hd _ hr hmem => ?_, fun hq => ⟨fun d => ?_, fun loop => ?_⟩⟩
  · have hl := (h.mem_iff hd).mp hmem
    simp [Accepted.listed, hr] at hl
  · refine (h.mem d).trans (exists_congr fun r => and_congr_right fun hd => ?_)
    obtain ⟨ha, hr⟩ := hq r (List.mem_of_getElem? hd)
    cases hm : r.removeAt <;> simp [Accepted.listed, Accepted.removing, ha, hm] at hr ⊢
  · rw [h.count loop, Tally.number]
    congr 1
    refine List.countP_congr fun r hmem => ?_
    obtain ⟨ha, hr⟩ := hq r hmem
    cases hm : r.removeAt <;> simp [Accepted.counted, Accepted.removing, ha, hm] at hr ⊢

/-- The loop establishes connection `d`, reads the end of its stream and closes it. -/
def lifeOf (d : Nat) : List ServerLabel :=
  [.connectEstablished d, .connection d .returns, .connection d (.readable [.ok []]),
    .removeConnection d, .removeConnection d, .removeConnection d]

def accepts : List ServerLabel := [.accept true, .onAccept, .onAccept, .onAccept]

/-- Two connections on one loop; the first closes once it is inserted. -/
theorem connection_set_exact_two :
    ∃ s tr, run (TcpServer.step fun _ => 0) (.new ⟨true, true, true, false, false⟩ 0 1)
        (accepts ++ accepts ++ lifeOf 0 ++ [.connectDestroyed 0]) = some (s, tr) ∧
      Quiescent s ∧ (∀ d, d ∈ s.connections ↔ ∃ r, s.accepted[d]? = some r ∧
        r.removeAt = .notCalled) ∧ s.connections = {1} ∧ s.connectionCount 0 = 1 := by
  have hrun : (run (TcpServer.step fun _ => 0) (.new ⟨true, true, true, false, false⟩ 0 1)
      (accepts ++ accepts ++ lifeOf 0 ++ [.connectDestroyed 0])).map (fun r =>
        decide ((∀ q ∈ r.1.accepted, q.acceptAt = .returned ∧ q.removing = false) ∧
          r.1.connections = {1} ∧ r.1.connectionCount 0 = 1)) = some true := by
    decide +kernel
  obtain ⟨⟨s, tr⟩, hs, heq⟩ := Option.map_eq_some_iff.mp hrun
  obtain ⟨hq, hset, hcount⟩ := of_decide_eq_true heq
  have hexact := connection_set_exact (fun _ => 0) _ 0 1 _ s tr (by decide +kernel) hs
  exact ⟨s, tr, hs, hq, (hexact.2 hq).1, hset, hcount⟩

/-- The loop runs the whole life of the connection between `queueInLoop` and the insertion:
    the closed connection stays in the set. -/
theorem connection_set_exact_leaked :
    ∃ ls s tr r, run (TcpServer.step fun _ => 0) (.new ⟨true, true, true, false, false⟩ 0 1) ls =
        some (s, tr) ∧ Quiescent s ∧ s.accepted[0]? = some r ∧ r.acceptAt = .returned ∧
      r.removeAt = .returned ∧ 0 ∈ s.connections := by
  have hrun : (run (TcpServer.step fun _ => 0) (.new ⟨true, true, true, false, false⟩ 0 1)
      ([.accept true, .onAccept, .onAccept] ++ lifeOf 0 ++ [.onAccept, .connectDestroyed 0])).bind
        (fun r => r.1.accepted[0]?.map fun q => decide (
          (∀ q ∈ r.1.accepted, q.acceptAt = .returned ∧ q.removing = false) ∧
            q.acceptAt = .returned ∧ q.removeAt = .returned ∧ 0 ∈ r.1.connections)) =
      some true := by
    decide +kernel
  obtain ⟨⟨s, tr⟩, hs, heq⟩ := Option.bind_eq_some_iff.mp hrun
  obtain ⟨r, hr, heq⟩ := Option.map_eq_some_iff.mp heq
  obtain ⟨hq, ha, hm, hmem⟩ := of_decide_eq_true heq
  exact ⟨_, s, tr, r, hs, hq, hr, ha, hm, hmem⟩

end RocketRpc.Net
