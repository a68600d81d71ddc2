import RocketRpc.Lib.Machine
import RocketRpc.Coder.TinyPBProtocol
import Mathlib.Logic.Function.Basic

/-
  `TcpClient::requestSync` (`rocket/net/tcp/tcp_client.cc`) on one client, with any number of
  callers and the loop thread that serves the table of read callbacks.

  A call registers a callback that works on its local variables, and holds the mutex of these
  from the end of its wait until it returns. The loop takes a callback out of the table and
  runs it in two steps. `never_late` says when no callback is run after its call has
  returned: when no call returns for a timeout while the loop holds its callback.
-/

namespace RocketRpc.Net

open RocketRpc.Tcp Machine

/-- A callback in `m_read_callbacks`. -/
inductive ReadCallback where
  /-- The one that the `requestSync` with this number registered. -/
  | sync (k : Nat)
  | other
  deriving DecidableEq, Repr

/-- Where a `requestSync` is. -/
inductive SyncPlace where
  | out
  | readMessage
  | send
  | waiting
  /-- The wait timed out, at `cancelRead`. -/
  | timedOut
  | cancelled
  | returned
  deriving DecidableEq, Repr

structure SyncCall where
  place : SyncPlace := .out
  /-- The local variable `done`. -/
  done : Bool := false
  deriving DecidableEq, Repr

structure SyncClient where
  readCallbacks : Bytes → Option ReadCallback := fun _ => none
  /-- The variable `cb` of `onMessage`. -/
  cb : Option ReadCallback := none
  calls : Nat → SyncCall := fun _ => {}

inductive SyncLabel where
  /-- Call `k` begins; `connected` is what it finds. -/
  | call (k : Nat) (connected : Bool)
  /-- Call `k` goes on. -/
  | goOn (k : Nat)
  /-- The wait of call `k` ends as its time is over. -/
  | timeout (k : Nat)
  /-- The loop looks up the callback of a message. -/
  | message (msgId : Bytes)
  /-- The loop runs the callback that it found. -/
  | invoke
  /-- Others use the table, or the client stops. -/
  | readMessage (msgId : Bytes)
  | cancelRead (msgId : Bytes)
  | stop
  deriving DecidableEq, Repr

inductive SyncEvent where
  /-- The callback of call `k` is run; `late` says that the call has returned. -/
  | invoked (k : Nat) (late : Bool)
  | returned (k : Nat) (answered : Bool)
  deriving DecidableEq, Repr

namespace SyncClient

variable (msgId : Nat → Bytes)

def put (w : SyncClient) (k : Nat) (c : SyncCall) : SyncClient :=
  { w with calls := Function.update w.calls k c }

/-- The mutex of the local variables is held by the call itself. -/
def locked (w : SyncClient) (k : Nat) : Bool :=
  (w.calls k).place == .timedOut || (w.calls k).place == .cancelled

def goOn (w : SyncClient) (k : Nat) (c : SyncCall) :
    SyncPlace → Option (SyncClient × List SyncEvent)
  | .readMessage =>
    some ({ w with
        readCallbacks := Function.update w.readCallbacks (msgId k) (some (.sync k)) }.put k
      { c with place := .send }, [])
  | .send => some (w.put k { c with place := .waiting }, [])
  | .waiting =>
    if c.done then some (w.put k { c with place := .returned }, [.returned k true]) else none
  | .timedOut =>
    some ({ w with readCallbacks := Function.update w.readCallbacks (msgId k) none }.put k
      { c with place := .cancelled }, [])
  | .cancelled => some (w.put k { c with place := .returned }, [.returned k false])
  | _ => none

def step (w : SyncClient) : SyncLabel → Option (SyncClient × List SyncEvent)
  | .call k connected =>
    if (w.calls k).place = .out then
      if connected then some (w.put k { w.calls k with place := .readMessage }, [])
      else some (w.put k { w.calls k with place := .returned }, [.returned k false])
    else none
  | .goOn k => w.goOn msgId k (w.calls k) (w.calls k).place
  | .timeout k =>
    if (w.calls k).place = .waiting ∧ (w.calls k).done = false then
      some (w.put k { w.calls k with place := .timedOut }, [])
    else none
  | .message id =>
    if w.cb.isNone then
      some ({ w with
        cb := w.readCallbacks id
        readCallbacks := Function.update w.readCallbacks id none }, [])
    else none
  | .invoke =>
    match w.cb with
    | some (.sync k) =>
      if w.locked k then none
      else
        some ({ w with cb := none }.put k { w.calls k with done := true },
          [.invoked k ((w.calls k).place == .returned)])
    | some .other => some ({ w with cb := none }, [])
    | none => none
  | .readMessage id =>
    some ({ w with readCallbacks := Function.update w.readCallbacks id (some .other) }, [])
  | .cancelRead id =>
    some ({ w with readCallbacks := Function.update w.readCallbacks id none }, [])
  | .stop => some ({ w with readCallbacks := fun _ => none }, [])

/-- No call returns for a timeout while the loop holds its callback. -/
def Handed (w : SyncClient) : SyncLabel → Prop
  | .goOn k => (w.calls k).place = .cancelled → w.cb ≠ some (.sync k)
  | _ => True

instance (w : SyncClient) : DecidablePred w.Handed := fun l => by
  cases l <;> unfold Handed <;> infer_instance

end SyncClient

variable {msgId : Nat → Bytes}

/-! ## Steps -/

/-- What a step of `SyncClient` can be. -/
inductive SyncMove (msgId : Nat → Bytes) (w : SyncClient) :
    SyncLabel → SyncClient → List SyncEvent → Prop
  | begins (j : Nat) : (w.calls j).place = .out →
      SyncMove msgId w (.call j true) (w.put j { w.calls j with place := .readMessage }) []
  | refused (j : Nat) : (w.calls j).place = .out →
      SyncMove msgId w (.call j false) (w.put j { w.calls j with place := .returned })
        [.returned j false]
  | registers (j : Nat) : (w.calls j).place = .readMessage →
      SyncMove msgId w (.goOn j)
        ({ w with
          readCallbacks := Function.update w.readCallbacks (msgId j) (some (.sync j)) }.put j
            { w.calls j with place := .send }) []
  | sends (j : Nat) : (w.calls j).place = .send →
      SyncMove msgId w (.goOn j) (w.put j { w.calls j with place := .waiting }) []
  | answered (j : Nat) : (w.calls j).place = .waiting → (w.calls j).done = true →
      SyncMove msgId w (.goOn j) (w.put j { w.calls j with place := .returned })
        [.returned j true]
  | cancels (j : Nat) : (w.calls j).place = .timedOut →
      SyncMove msgId w (.goOn j)
        ({ w with readCallbacks := Function.update w.readCallbacks (msgId j) none }.put j
          { w.calls j with place := .cancelled }) []
  | givesUp (j : Nat) : (w.calls j).place = .cancelled →
      SyncMove msgId w (.goOn j) (w.put j { w.calls j with place := .returned })
        [.returned j false]
  | timesOut (j : Nat) : (w.calls j).place = .waiting → (w.calls j).done = false →
      SyncMove msgId w (.timeout j) (w.put j { w.calls j with place := .timedOut }) []
  | message (id : Bytes) : w.cb = none →
      SyncMove msgId w (.message id)
        { w with
          cb := w.readCallbacks id
          readCallbacks := Function.update w.readCallbacks id none } []
  | invoked (j : Nat) : w.cb = some (.sync j) → w.locked j = false →
      SyncMove msgId w .invoke ({ w with cb := none }.put j { w.calls j with done := true })
        [.invoked j ((w.calls j).place == .returned)]
  | invokedOther : w.cb = some .other → SyncMove msgId w .invoke { w with cb := none } []
  | readMessage (id : Bytes) :
      SyncMove msgId w (.readMessage id)
        { w with readCallbacks := Function.update w.readCallbacks id (some .other) } []
  | cancelRead (id : Bytes) :
      SyncMove msgId w (.cancelRead id)
        { w with readCallbacks := Function.update w.readCallbacks id none } []
  | stop : SyncMove msgId w .stop { w with readCallbacks := fun _ => none } []

theorem step_syncMove {w w' : SyncClient} {l : SyncLabel} {es : List SyncEvent}
    (hstep : w.step msgId l = some (w', es)) :
    SyncMove msgId w l w' es := by
  cases l with
  | call j connected =>
    simp only [SyncClient.step] at hstep
    split at hstep
    · rename_i hplace
      cases connected with
      | true =>
        obtain ⟨rfl, rfl⟩ := Prod.mk.inj (Option.some.inj hstep)
        exact .begins j hplace
      | false =>
        obtain ⟨rfl, rfl⟩ := Prod.mk.inj (Option.some.inj hstep)
        exact .refused j hplace
    · exact absurd hstep (by simp)
  | goOn j =>
    simp only [SyncClient.step] at hstep
    cases hplace : (w.calls j).place with
    | readMessage =>
      rw [hplace] at hstep
      obtain ⟨rfl, rfl⟩ := Prod.mk.inj (Option.some.inj hstep)
      exact .registers j hplace
    | send =>
      rw [hplace] at hstep
      obtain ⟨rfl, rfl⟩ := Prod.mk.inj (Option.some.inj hstep)
      exact .sends j hplace
    | waiting =>
      rw [hplace, SyncClient.goOn] at hstep
      split at hstep
      · rename_i hdone
        obtain ⟨rfl, rfl⟩ := Prod.mk.inj (Option.some.inj hstep)
        exact .answered j hplace hdone
      · exact absurd hstep (by simp)
    | timedOut =>
      rw [hplace] at hstep
      obtain ⟨rfl, rfl⟩ := Prod.mk.inj (Option.some.inj hstep)
      exact .cancels j hplace
    | cancelled =>
      rw [hplace] at hstep
      obtain ⟨rfl, rfl⟩ := Prod.mk.inj (Option.some.inj hstep)
      exact .givesUp j hplace
    | out | returned =>
      rw [hplace] at hstep
      exact absurd hstep (by simp [SyncClient.goOn])
  | timeout j =>
    simp only [SyncClient.step] at hstep
    split at hstep
    · rename_i hwait
      obtain ⟨rfl, rfl⟩ := Prod.mk.inj (Option.some.inj hstep)
      exact .timesOut j hwait.1 hwait.2
    · exact absurd hstep (by simp)
  | message id =>
    simp only [SyncClient.step] at hstep
    split at hstep
    · rename_i hcb
      obtain ⟨rfl, rfl⟩ := Prod.mk.inj (Option.some.inj hstep)
      exact .message id (Option.isNone_iff_eq_none.mp hcb)
    · exact absurd hstep (by simp)
  | invoke =>
    simp only [SyncClient.step] at hstep
    split at hstep
    · rename_i j hcb
      split at hstep
      · exact absurd hstep (by simp)
      · rename_i hlocked
        obtain ⟨rfl, rfl⟩ := Prod.mk.inj (Option.some.inj hstep)
        exact .invoked j hcb (eq_false_of_ne_true hlocked)
    · rename_i hcb
      obtain ⟨rfl, rfl⟩ := Prod.mk.inj (Option.some.inj hstep)
      exact .invokedOther hcb
    · exact absurd hstep (by simp)
  | readMessage id =>
    obtain ⟨rfl, rfl⟩ := Prod.mk.inj (Option.some.inj hstep)
    exact .readMessage id
  | cancelRead id =>
    obtain ⟨rfl, rfl⟩ := Prod.mk.inj (Option.some.inj hstep)
    exact .cancelRead id
  | stop =>
    obtain ⟨rfl, rfl⟩ := Prod.mk.inj (Option.some.inj hstep)
    exact .stop

/-! ## Who still has a callback -/

/-- A callback is in the table under the id of its call or in the hands of the loop, not in
    both, and only while its call works on the variables and has no answer. -/
structure Handling (msgId : Nat → Bytes) (w : SyncClient) : Prop where
  fresh : ∀ k, ((w.calls k).place = .out ∨ (w.calls k).place = .readMessage) →
    (w.calls k).done = false
  table : ∀ id k, w.readCallbacks id = some (.sync k) → id = msgId k ∧ (w.calls k).done = false ∧
    ((w.calls k).place = .send ∨ (w.calls k).place = .waiting ∨ (w.calls k).place = .timedOut)
  taken : ∀ k, w.cb = some (.sync k) → (w.calls k).done = false ∧
    ((w.calls k).place = .send ∨ (w.calls k).place = .waiting ∨ (w.calls k).place = .timedOut ∨
      (w.calls k).place = .cancelled) ∧ ∀ id, w.readCallbacks id ≠ some (.sync k)

theorem calls_put (w : SyncClient) (k : Nat) (c : SyncCall) (j : Nat) :
    (w.put k c).calls j = if j = k then c else w.calls j :=
  Function.update_apply _ _ _ _

/-- Entries go away. -/
theorem Handling.fewer {w : SyncClient} (h : Handling msgId w) {table : Bytes → Option ReadCallback}
    (hfewer : ∀ id k, table id = some (.sync k) → w.readCallbacks id = some (.sync k)) :
    Handling msgId { w with readCallbacks := table } := by
  refine ⟨h.fresh, fun id k hk => h.table id k (hfewer id k hk), fun k hk => ?_⟩
  obtain ⟨hdone, hplace, hnone⟩ := h.taken k hk
  exact ⟨hdone, hplace, fun id hid => hnone id (hfewer id k hid)⟩

theorem update_sync {table : Bytes → Option ReadCallback} {id id' : Bytes} {k : Nat}
    {cb : Option ReadCallback} (hcb : cb ≠ some (.sync k))
    (h : Function.update table id cb id' = some (.sync k)) :
    id' ≠ id ∧ table id' = some (.sync k) := by
  by_cases heq : id' = id
  · rw [heq, Function.update_self] at h
    exact absurd h hcb
  · rw [Function.update_of_ne heq] at h
    exact ⟨heq, h⟩

/-- Call `k` goes on to a place where the others may still have its callback as they had. -/
theorem Handling.put {w : SyncClient} {k : Nat} {c : SyncCall} (h : Handling msgId w)
    (hfresh : c.place = .out ∨ c.place = .readMessage → c.done = false)
    (htable : ∀ id, w.readCallbacks id = some (.sync k) → c.done = false ∧
      (c.place = .send ∨ c.place = .waiting ∨ c.place = .timedOut))
    (htaken : w.cb = some (.sync k) → c.done = false ∧
      (c.place = .send ∨ c.place = .waiting ∨ c.place = .timedOut ∨ c.place = .cancelled)) :
    Handling msgId (w.put k c) := by
  refine ⟨fun j => ?_, fun id j hj => ?_, fun j hj => ?_⟩
  · rw [calls_put]
    split
    · exact hfresh
    · exact h.fresh j
  · rw [calls_put]
    obtain ⟨hid, hrest⟩ := h.table id j hj
    split
    · rename_i hjk
      subst hjk
      exact ⟨hid, htable id hj⟩
    · exact ⟨hid, hrest⟩
  · rw [calls_put]
    obtain ⟨hdone, hplace, hnone⟩ := h.taken j hj
    split
    · rename_i hjk
      subst hjk
      obtain ⟨hdone', hplace'⟩ := htaken hj
      exact ⟨hdone', hplace', hnone⟩
    · exact ⟨hdone, hplace, hnone⟩

/-- A call that is at none of the places where the others have its callback. -/
theorem Handling.free {w : SyncClient} (h : Handling msgId w) {k : Nat}
    (hplace : (w.calls k).place = .out ∨ (w.calls k).place = .readMessage ∨
      (w.calls k).place = .returned ∨ (w.calls k).done = true) :
    w.cb ≠ some (.sync k) ∧ ∀ id, w.readCallbacks id ≠ some (.sync k) := by
  constructor
  · intro hcb
    obtain ⟨hdone, hat, -⟩ := h.taken k hcb
    rcases hplace with hp | hp | hp | hp
    · rcases hat with ha | ha | ha | ha <;> exact absurd (hp.symm.trans ha) (by simp)
    · rcases hat with ha | ha | ha | ha <;> exact absurd (hp.symm.trans ha) (by simp)
    · rcases hat with ha | ha | ha | ha <;> exact absurd (hp.symm.trans ha) (by simp)
    · exact absurd (hdone.symm.trans hp) (by simp)
  · intro id hid
    obtain ⟨-, hdone, hat⟩ := h.table id k hid
    rcases hplace with hp | hp | hp | hp
    · rcases hat with ha | ha | ha <;> exact absurd (hp.symm.trans ha) (by simp)
    · rcases hat with ha | ha | ha <;> exact absurd (hp.symm.trans ha) (by simp)
    · rcases hat with ha | ha | ha <;> exact absurd (hp.symm.trans ha) (by simp)
    · exact absurd (hdone.symm.trans hp) (by simp)

theorem handling_register {w : SyncClient} {k : Nat} (h : Handling msgId w)
    (hplace : (w.calls k).place = .readMessage) :
    Handling msgId ({ w with
        readCallbacks := Function.update w.readCallbacks (msgId k) (some (.sync k)) }.put k
      { w.calls k with place := .send }) := by
  have hdone := h.fresh k (Or.inr hplace)
  obtain ⟨hcb, hnone⟩ := h.free (Or.inr (Or.inl hplace))
  have hentry : ∀ {id j}, Function.update w.readCallbacks (msgId k) (some (.sync k)) id =
      some (.sync j) → (j = k ∧ id = msgId k) ∨ w.readCallbacks id = some (.sync j) := by
    intro id j hj
    by_cases hjk : j = k
    · subst hjk
      by_cases hid : id = msgId j
      · exact Or.inl ⟨rfl, hid⟩
      · rw [Function.update_of_ne hid] at hj
        exact Or.inr hj
    · refine Or.inr (update_sync ?_ hj).2
      exact fun heq => hjk (by simpa using heq.symm)
  refine ⟨fun j => ?_, fun id j hj => ?_, fun j hj => ?_⟩
  · rw [calls_put]
    split
    · exact fun hp => absurd hp (by simp)
    · exact h.fresh j
  · rw [calls_put]
    rcases hentry hj with ⟨rfl, hid⟩ | hold
    · rw [if_pos rfl]
      exact ⟨hid, hdone, Or.inl rfl⟩
    · have hjk : j ≠ k := fun hjk => hnone id (hjk ▸ hold)
      rw [if_neg hjk]
      exact h.table id j hold
  · have hjk : j ≠ k := fun hjk => hcb (hjk ▸ hj)
    rw [calls_put, if_neg hjk]
    obtain ⟨hd, hp, hn⟩ := h.taken j hj
    refine ⟨hd, hp, fun id hid => ?_⟩
    rcases hentry hid with ⟨rfl, -⟩ | hold
    · exact hjk rfl
    · exact hn id hold

theorem step_handling {w w' : SyncClient} {l : SyncLabel} {es : List SyncEvent}
    (h : Handling msgId w) (hok : w.Handed l) (hstep : w.step msgId l = some (w', es)) :
    Handling msgId w' := by
  cases step_syncMove hstep with
  | begins k hplace | refused k hplace =>
    have hdone := h.fresh k (Or.inl hplace)
    obtain ⟨hcb, hnone⟩ := h.free (Or.inl hplace)
    exact h.put (fun _ => hdone) (fun id hid => absurd hid (hnone id)) fun hcb' =>
      absurd hcb' hcb
  | registers k hplace => exact handling_register h hplace
  | sends k hplace =>
    refine h.put (by simp) (fun id hid => ?_) fun hcb => ?_
    · exact ⟨(h.table id k hid).2.1, Or.inr (Or.inl rfl)⟩
    · exact ⟨(h.taken k hcb).1, Or.inr (Or.inl rfl)⟩
  | answered k hplace hdone =>
    obtain ⟨hcb, hnone⟩ := h.free (Or.inr (Or.inr (Or.inr hdone)))
    exact h.put (by simp) (fun id hid => absurd hid (hnone id)) fun hcb' => absurd hcb' hcb
  | cancels k hplace =>
    have hfewer : Handling msgId { w with
        readCallbacks := Function.update w.readCallbacks (msgId k) none } :=
      h.fewer fun id j hj => (update_sync (by simp) hj).2
    refine hfewer.put (by simp) (fun id hid => ?_) fun hcb => ?_
    · obtain ⟨hne, hold⟩ := update_sync (by simp) hid
      exact absurd (h.table id k hold).1 hne
    · exact ⟨(h.taken k hcb).1, Or.inr (Or.inr (Or.inr rfl))⟩
  | givesUp k hplace =>
    refine h.put (by simp) (fun id hid => ?_) fun hcb => absurd hcb (hok hplace)
    rcases (h.table id k hid).2.2 with hp | hp | hp <;>
      exact absurd (hplace.symm.trans hp) (by simp)
  | timesOut k hplace hdone =>
    refine h.put (by simp) (fun _ _ => ?_) fun _ => ?_
    · exact ⟨hdone, Or.inr (Or.inr rfl)⟩
    · exact ⟨hdone, Or.inr (Or.inr (Or.inl rfl))⟩
  | message id hcb =>
    have hfewer : Handling msgId { w with
        readCallbacks := Function.update w.readCallbacks id none } :=
      h.fewer fun id' j hj => (update_sync (by simp) hj).2
    refine ⟨h.fresh, hfewer.table, fun k hk => ?_⟩
    obtain ⟨hid, hdone, hplace⟩ := h.table id k hk
    refine ⟨hdone, ?_, fun id' hid' => ?_⟩
    · rcases hplace with hp | hp | hp
      · exact Or.inl hp
      · exact Or.inr (Or.inl hp)
      · exact Or.inr (Or.inr (Or.inl hp))
    · obtain ⟨hne, hold⟩ := update_sync (by simp) hid'
      exact hne ((h.table id' k hold).1.trans hid.symm)
  | invoked k hcb hlocked =>
    obtain ⟨-, hplace, hnone⟩ := h.taken k hcb
    have hfree : Handling msgId { w with cb := none } :=
      ⟨h.fresh, h.table, fun j hj => absurd hj (by simp)⟩
    refine hfree.put ?_ (fun id hid => absurd hid (hnone id)) fun hcb' => absurd hcb' (by simp)
    rintro (hp | hp) <;> rcases hplace with ha | ha | ha | ha <;>
      exact absurd (hp.symm.trans ha) (by simp)
  | invokedOther hcb => exact ⟨h.fresh, h.table, fun j hj => absurd hj (by simp)⟩
  | readMessage id | cancelRead id => exact h.fewer fun id' j hj => (update_sync (by simp) hj).2
  | stop => exact h.fewer fun id' j hj => absurd hj (by simp)

/-- A callback was run in time, and a call that returned is where it says. -/
def SyncEvent.Sound (w : SyncClient) : SyncEvent → Prop
  | .invoked _ late => late = false
  | .returned k _ => (w.calls k).place = .returned

theorem step_sound {w w' : SyncClient} {l : SyncLabel} {es : List SyncEvent}
    (h : Handling msgId w) (hstep : w.step msgId l = some (w', es)) :
    ∀ e ∈ es, e.Sound w' := by
  intro e he
  cases step_syncMove hstep with
  | begins | registers | sends | cancels | timesOut | message | invokedOther | readMessage
  | cancelRead | stop => exact absurd he List.not_mem_nil
  | refused k | answered k | givesUp k =>
    obtain rfl := List.mem_singleton.mp he
    rw [SyncEvent.Sound, calls_put, if_pos rfl]
  | invoked k hcb hlocked =>
    obtain rfl := List.mem_singleton.mp he
    -- the loop had the callback in its hands, so the call was not through
    obtain ⟨-, hplace, -⟩ := h.taken k hcb
    rcases hplace with hp | hp | hp | hp <;> simp [SyncEvent.Sound, hp]

/-- A call that has returned stays so. -/
theorem step_returned {w w' : SyncClient} {l : SyncLabel} {es : List SyncEvent} {j : Nat}
    (hstep : w.step msgId l = some (w', es)) (hj : (w.calls j).place = .returned) :
    (w'.calls j).place = .returned := by
  have hput : ∀ {v : SyncClient} {k : Nat} {c : SyncCall}, v.calls = w.calls →
      (j = k → c.place = .returned) → ((v.put k c).calls j).place = .returned := by
    intro v k c hv hc
    rw [calls_put]
    split
    · rename_i hjk
      exact hc hjk
    · rw [hv]
      exact hj
  have hne : ∀ {k p}, (w.calls k).place = p → p ≠ .returned → j ≠ k := by
    rintro k p hp hne rfl
    exact hne (hp.symm.trans hj)
  cases step_syncMove hstep with
  | begins k hplace | registers k hplace | sends k hplace | cancels k hplace
  | timesOut k hplace =>
    exact hput rfl fun heq => absurd heq (hne hplace (by simp))
  | refused | answered | givesUp => exact hput rfl fun _ => rfl
  | invoked k =>
    refine hput rfl ?_
    rintro rfl
    exact hj
  | message | invokedOther | readMessage | cancelRead | stop => exact hj

/-- In every run in which no call returns for a timeout while the loop holds its callback, no
    callback is run after its call has returned, and none of a call that has returned is left
    in the table or in the hands of the loop. -/
theorem never_late (msgId : Nat → Bytes) (ls : List SyncLabel) (w : SyncClient)
    (es : List SyncEvent) (hok : RunOk (SyncClient.step msgId) SyncClient.Handed {} ls)
    (hrun : run (SyncClient.step msgId) {} ls = some (w, es)) :
    (∀ k late, .invoked k late ∈ es → late = false) ∧
      ∀ k answered, .returned k answered ∈ es →
        w.cb ≠ some (.sync k) ∧ ∀ id, w.readCallbacks id ≠ some (.sync k) := by
  have hinit : Handling msgId {} := ⟨fun _ _ => rfl, by simp, by simp⟩
  have hkept := runOk_induction (fun v tr => Handling msgId v ∧ ∀ e ∈ tr, e.Sound v)
    (by
      intro v tr l v' es' ⟨hv, htr⟩ hl hs
      refine ⟨step_handling hv hl hs, fun e he => ?_⟩
      rcases List.mem_append.mp he with he | he
      · have hold := htr e he
        cases e with
        | invoked k late => exact hold
        | returned k answered => exact step_returned hs hold
      · exact step_sound hv hs e he) [] ⟨hinit, by simp⟩ hok hrun
  obtain ⟨hhandling, hsound⟩ := hkept
  rw [List.nil_append] at hsound
  refine ⟨fun k late he => hsound _ he, fun k answered he => ?_⟩
  exact hhandling.free (Or.inr (Or.inr (Or.inl (hsound _ he))))

/-- A request that times out before the loop looks it up, and one that is answered. -/
theorem never_late_in_turn :
    ∃ (w : SyncClient) (es : List SyncEvent),
      run (SyncClient.step fun k => [UInt8.ofNat k]) {} [.call 1 true, .goOn 1, .goOn 1, .call 2 true,
        .goOn 2, .goOn 2, .timeout 1, .goOn 1, .goOn 1, .message [1], .message [2], .invoke,
        .goOn 2] = some (w, es) ∧ .returned 1 false ∈ es ∧ .returned 2 true ∈ es ∧
      ∀ k late, .invoked k late ∈ es → late = false := by
  have hrun : (run (SyncClient.step fun k => [UInt8.ofNat k]) {} [.call 1 true, .goOn 1, .goOn 1,
      .call 2 true, .goOn 2, .goOn 2, .timeout 1, .goOn 1, .goOn 1, .message [1], .message [2],
      .invoke, .goOn 2]).map (fun r => decide (.returned 1 false ∈ r.2 ∧ .returned 2 true ∈ r.2)) =
        some true := by
    decide +kernel
  obtain ⟨⟨w, es⟩, hw, hdone⟩ := Option.map_eq_some_iff.mp hrun
  obtain ⟨hone, htwo⟩ := of_decide_eq_true hdone
  exact ⟨w, es, hw, hone, htwo, (never_late _ _ w es (by decide +kernel) hw).1⟩

/-- The wait is over when the loop has taken the callback out of the table, and the call
    returns before the loop runs it. -/
theorem late_after_timeout :
    ∃ (w : SyncClient) (es : List SyncEvent),
      run (SyncClient.step fun k => [UInt8.ofNat k]) {} [.call 1 true, .goOn 1, .goOn 1, .message [1],
        .timeout 1, .goOn 1, .goOn 1, .invoke] = some (w, es) ∧ .invoked 1 true ∈ es := by
  have hrun : (run (SyncClient.step fun k => [UInt8.ofNat k]) {} [.call 1 true, .goOn 1, .goOn 1,
      .message [1], .timeout 1, .goOn 1, .goOn 1, .invoke]).map (fun r =>
        decide (.invoked 1 true ∈ r.2)) = some true := by
    decide +kernel
  obtain ⟨⟨w, es⟩, hw, hdone⟩ := Option.map_eq_some_iff.mp hrun
  exact ⟨w, es, hw, of_decide_eq_true hdone⟩

end RocketRpc.Net
