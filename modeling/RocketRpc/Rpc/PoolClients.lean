import RocketRpc.Rpc.PoolSteps
import Mathlib.Order.Nat

/-
  The clients and the loops that the calls of the pool have to do with.

  An `acquire` names clients in its place and has chosen a loop. `Placed` says that the clients
  are made and that the loop is not the one that executes the call, and `Settles` what no step
  takes back of a client that is made.
-/

namespace RocketRpc.Rpc

open RpcConnectionPool

/-- The clients that an `acquire` still has to do with, or returns. -/
def AcquirePlace.names : AcquirePlace → List Nat
  | .stopStale stale _ => stale
  | .connecting client _ | .connected client _ | .publish client _ | .drop client _ => [client]
  | .stop client (.stale rest _) | .stopping client (.stale rest _) => client :: rest
  | .stop client (.ret pooled) | .stopping client (.ret pooled) => client :: pooled.toList
  | .ret client => client.toList
  | .lookup | .connect _ | .over => []

/-- The loop that an `acquire` has chosen and not yet connected to. -/
def AcquirePlace.choice : AcquirePlace → Option Nat
  | .stopStale _ loop | .stop _ (.stale _ loop) | .stopping _ (.stale _ loop) => loop
  | .connect loop => some loop
  | _ => none

theorem choice_afterStop (client : Nat) (next : AfterStop) :
    (AfterStop.place next).choice = (AcquirePlace.stop client next).choice := by
  cases next <;> rfl

theorem choice_stopping (client : Nat) (next : AfterStop) :
    (AcquirePlace.stopping client next).choice = (AcquirePlace.stop client next).choice := by
  cases next <;> rfl

theorem names_stopping (client : Nat) (next : AfterStop) :
    (AcquirePlace.stopping client next).names = (AcquirePlace.stop client next).names := by
  cases next <;> rfl

theorem names_afterStop {client c : Nat} {next : AfterStop}
    (h : c ∈ (AfterStop.place next).names) : c ∈ (AcquirePlace.stop client next).names := by
  cases next with
  | stale rest loop => exact List.mem_cons_of_mem client h
  | ret pooled => exact List.mem_cons_of_mem client h

/-- The `shutdown` has come to `m_io_group.join`. -/
def ShutdownPlace.joins : ShutdownPlace → Bool
  | .join _ | .joining _ | .clear | .done => true
  | .idle | .unregister _ | .stop _ _ | .stopping _ _ => false

namespace RpcConnectionPool

variable {s s' : RpcConnectionPool}

/-! ## What is named and chosen -/

/-- Clients are named only once they are made, and no call chooses its own loop. -/
structure Placed (s : RpcConnectionPool) : Prop where
  filed : ∀ addr, ∀ c ∈ s.clients addr, c < s.made
  named : ∀ a, ∀ c ∈ (s.acquires a).place.names, c < s.made
  chosen : ∀ a loop, (s.acquires a).place.choice = some loop → (s.acquires a).thread ≠ some loop

theorem placed_new (ioThreads connsPerAddr : Nat) : Placed (new ioThreads connsPerAddr) := by
  refine ⟨?_, ?_, ?_⟩ <;> simp [new, AcquirePlace.names, AcquirePlace.choice]

/-- No call moves. -/
theorem Placed.still (h : Placed s) (hmade : s.made ≤ s'.made)
    (hclients : ∀ addr, ∀ c ∈ s'.clients addr, c ∈ s.clients addr)
    (hacquires : ∀ a, (s'.acquires a).place = (s.acquires a).place ∧
      (s'.acquires a).thread = (s.acquires a).thread) : Placed s' := by
  refine ⟨fun addr c hc => lt_of_lt_of_le (h.filed addr c (hclients addr c hc)) hmade,
    fun a c hc => ?_, fun a loop hloop => ?_⟩
  · rw [(hacquires a).1] at hc
    exact lt_of_lt_of_le (h.named a c hc) hmade
  · rw [(hacquires a).1] at hloop
    rw [(hacquires a).2]
    exact h.chosen a loop hloop

/-- One call moves on. -/
theorem Placed.goTo {s₁ : RpcConnectionPool} {a : Nat} {place : AcquirePlace} (hs₁ : Placed s₁)
    (hnames : ∀ c ∈ place.names, c < s₁.made)
    (hchoice : ∀ loop, place.choice = some loop → (s₁.acquires a).thread ≠ some loop) :
    Placed (s₁.goTo a place) := by
  refine ⟨hs₁.filed, fun b c hc => ?_, fun b loop hloop => ?_⟩
  · rw [acquires_goTo] at hc
    split at hc
    · exact hnames c hc
    · exact hs₁.named b c hc
  · rw [thread_goTo]
    rw [acquires_goTo] at hloop
    split at hloop
    · rename_i hba
      exact hba ▸ hchoice loop hloop
    · exact hs₁.chosen b loop hloop

/-- One call moves on and keeps what it names and has chosen, or some of it. -/
theorem Placed.moves {s₁ : RpcConnectionPool} {a : Nat} {place place' : AcquirePlace}
    (h : Placed s) (hplace : (s.acquires a).place = place) (hmade : s.made ≤ s₁.made)
    (hclients : ∀ addr, ∀ c ∈ s₁.clients addr, c ∈ s.clients addr)
    (hacquires : ∀ b, (s₁.acquires b).place = (s.acquires b).place ∧
      (s₁.acquires b).thread = (s.acquires b).thread)
    (hnames : ∀ c ∈ place'.names, c ∈ place.names)
    (hchoice : ∀ loop, place'.choice = some loop → place.choice = some loop) :
    Placed (s₁.goTo a place') := by
  subst hplace
  refine (h.still hmade hclients hacquires).goTo (fun c hc => ?_) fun loop hloop => ?_
  · exact lt_of_lt_of_le (h.named a c (hnames c hc)) hmade
  · rw [(hacquires a).2]
    exact h.chosen a loop (hchoice loop hloop)

theorem stopped_same {thread : Option Nat} {client : Nat} {wait : Bool} {es : List PoolEvent}
    (hstop : Stopped s thread client s' wait es) :
    s'.made = s.made ∧ s'.clients = s.clients ∧ s'.acquires = s.acquires := by
  cases hstop <;> exact ⟨rfl, rfl, rfl⟩

theorem stopped_placed {thread : Option Nat} {client : Nat} {wait : Bool} {es : List PoolEvent}
    (h : Placed s) (hstop : Stopped s thread client s' wait es) : Placed s' := by
  cases hstop with
  | again => exact h
  | bare | waits => exact h.still le_rfl (fun _ _ => id) fun _ => ⟨rfl, rfl⟩

theorem lookedUp_placed {a : Nat} {es : List PoolEvent} (h : Placed s)
    (hlookup : LookedUp s a s' es) : Placed s' := by
  cases hlookup with
  | shut => exact h.goTo (by simp [AcquirePlace.names]) (by simp [AcquirePlace.choice])
  | found hmem =>
    refine Placed.goTo (h.still le_rfl (fun _ _ => id) fun _ => ⟨rfl, rfl⟩) ?_ ?_
    · simpa [AcquirePlace.names] using h.filed _ _ hmem
    · simp [AcquirePlace.choice]
  | evicts _ hloop =>
    have hsame := (uncount_spec s (s.clients (s.acquires a).addr)).1
    have hacquires : (s.evict (s.acquires a).addr).acquires = s.acquires := hsame.acquires
    have hevict : Placed (s.evict (s.acquires a).addr) := by
      refine h.still hsame.made.ge (fun k c hc => ?_) fun b => by rw [hacquires]; exact ⟨rfl, rfl⟩
      rw [clients_evict] at hc
      split at hc
      · exact absurd hc (by simp)
      · exact hc
    refine hevict.goTo (fun c hc => lt_of_lt_of_le (h.filed _ c hc) hsame.made.ge) fun l hl => ?_
    rw [hacquires]
    exact (hloop l hl).2
  | room _ hloop => exact h.goTo (by simp [AcquirePlace.names]) fun l hl => (hloop l hl).2

theorem published_placed {a client loop : Nat} {es : List PoolEvent} (h : Placed s)
    (hplace : (s.acquires a).place = .publish client loop)
    (hpublish : Published s a client loop s' es) : Placed s' := by
  cases hpublish with
  | shut =>
    exact h.moves hplace le_rfl (fun _ _ => id) (fun _ => ⟨rfl, rfl⟩) (fun _ => id) fun _ => id
  | added =>
    have hclient : client < s.made := h.named a client (by simp [hplace, AcquirePlace.names])
    have hpush : Placed (s.pushBack (s.acquires a).addr client) := by
      refine ⟨fun k c hc => ?_, h.named, h.chosen⟩
      rw [clients_pushBack] at hc
      split at hc
      · rcases List.mem_append.mp hc with hc | hc
        · exact h.filed _ c hc
        · obtain rfl := List.mem_singleton.mp hc
          exact hclient
      · exact h.filed k c hc
    refine hpush.goTo (fun c hc => ?_) ?_
    · obtain rfl : client = c := by simpa [AcquirePlace.names, eq_comm] using hc
      exact hclient
    · simp [AcquirePlace.choice]
  | full =>
    refine Placed.goTo (h.still le_rfl (fun _ _ => id) fun _ => ⟨rfl, rfl⟩) (fun c hc => ?_) ?_
    · rcases List.mem_cons.mp hc with rfl | hc
      · exact h.named a c (by simp [hplace, AcquirePlace.names])
      · exact h.filed _ c (List.mem_of_getElem? (Option.mem_toList.mp hc))
    · simp [AcquirePlace.choice]

theorem acts_placed {a : Nat} {place : AcquirePlace} {es : List PoolEvent} (h : Placed s)
    (hplace : (s.acquires a).place = place) (hacts : Acts s a place s' es) : Placed s' := by
  cases hacts with
  | lookup hlookup => exact lookedUp_placed h hlookup
  | goes hgoes =>
    cases hgoes with
    | stale | choice | noLoop | fails =>
      exact h.moves hplace le_rfl (fun _ _ => id) (fun _ => ⟨rfl, rfl⟩) (fun _ => id) fun _ => id
  | connect hconnect =>
    rename_i loop ok
    obtain ⟨rfl, -⟩ := Prod.mk.inj hconnect
    refine Placed.goTo (h.still (Nat.le_succ _) (fun _ _ => id) fun _ => ⟨rfl, rfl⟩) ?_ ?_
    · simp [AcquirePlace.names]
    · simp [AcquirePlace.choice]
  | connects =>
    refine h.moves hplace le_rfl (fun _ _ => id) (fun b => ?_) (fun _ => id) fun _ => id
    rw [acquires_seeFor]
    split
    · rename_i hb
      exact hb ▸ ⟨rfl, rfl⟩
    · exact ⟨rfl, rfl⟩
  | counts | drops =>
    exact h.moves hplace le_rfl (fun _ _ => id) (fun _ => ⟨rfl, rfl⟩) (fun _ => id) fun _ => id
  | publish hpublish => exact published_placed h hplace hpublish
  | stops hstop =>
    obtain ⟨hmade, hclients, hacquires⟩ := stopped_same hstop
    refine h.moves hplace hmade.ge (fun _ _ hc => hclients ▸ hc)
      (fun b => by rw [hacquires]; exact ⟨rfl, rfl⟩) (fun c hc => ?_) fun loop hloop => ?_
    · split at hc
      · rwa [names_stopping] at hc
      · exact names_afterStop hc
    · split at hloop
      · rwa [choice_stopping] at hloop
      · rwa [choice_afterStop] at hloop
  | stopped =>
    refine h.moves hplace le_rfl (fun _ _ => id) (fun _ => ⟨rfl, rfl⟩) (fun c hc => ?_)
      fun loop hloop => ?_
    · rw [names_stopping]
      exact names_afterStop hc
    · rwa [choice_stopping, ← choice_afterStop]
  | ret => exact h.goTo (by simp [AcquirePlace.names]) (by simp [AcquirePlace.choice])

theorem step_placed {l : PoolLabel} {es : List PoolEvent} (h : Placed s)
    (hstep : s.step l = some (s', es)) : Placed s' := by
  have hsteps := step_cases hstep
  cases hsteps with
  | begins =>
    refine ⟨h.filed, fun a c hc => ?_, fun a loop hloop => ?_⟩
    · rw [acquires_beginAcquire] at hc
      split at hc
      · exact absurd hc (by simp [AcquirePlace.names])
      · exact h.named a c hc
    · rw [acquires_beginAcquire] at hloop ⊢
      split at hloop
      · exact absurd hloop (by simp [AcquirePlace.choice])
      · rename_i hne
        rw [if_neg hne]
        exact h.chosen a loop hloop
  | acquire hacts => exact acts_placed h rfl hacts
  | discovers | shutsDown | loop | handles =>
    exact h.still le_rfl (fun _ _ => id) fun _ => ⟨rfl, rfl⟩
  | shutdown hshuts =>
    generalize s.shutdown = place at hshuts
    cases hshuts with
    | stops hstop =>
      have hs₁ := stopped_placed h hstop
      exact hs₁.still le_rfl (fun _ _ => id) fun _ => ⟨rfl, rfl⟩
    | clears =>
      exact h.still le_rfl (fun _ _ hc => absurd hc (by simp)) fun _ => ⟨rfl, rfl⟩
    | _ => exact h.still le_rfl (fun _ _ => id) fun _ => ⟨rfl, rfl⟩
  | establishes _ _ hs₁ =>
    rename_i client _ _ s₁
    have hone : Placed s₁ := hs₁ ▸ h.still le_rfl (fun _ _ => id) fun _ => ⟨rfl, rfl⟩
    split
    · refine hone.still le_rfl (fun _ _ => id) fun a => ?_
      rw [acquires_see]
      split <;> exact ⟨rfl, rfl⟩
    · exact hone

/-! ## What stays of a client -/

/-- The clients made so far keep their loops; what has called back or is destroyed stays so. -/
structure Settles (s s' : RpcConnectionPool) : Prop where
  loop : ∀ c < s.made, (s'.tcpClients c).loop = (s.tcpClients c).loop
  called : ∀ c < s.made, (s'.tcpClients c).called.isNone = true →
    (s.tcpClients c).called.isNone = true
  destroyed : ∀ c < s.made, (s.tcpClients c).destroyed = true →
    (s'.tcpClients c).destroyed = true

theorem Settles.of_eq (h : s'.tcpClients = s.tcpClients) : Settles s s' := by
  refine ⟨fun c _ => ?_, fun c _ => ?_, fun c _ => ?_⟩ <;> rw [h]
  · exact id
  · exact id

theorem Settles.setClient {client : Nat} {c : PoolClient}
    (hloop : c.loop = (s.tcpClients client).loop)
    (hcalled : c.called.isNone = true → (s.tcpClients client).called.isNone = true)
    (hdestroyed : (s.tcpClients client).destroyed = true → c.destroyed = true) :
    Settles s (s.setClient client c) := by
  refine ⟨fun i _ => ?_, fun i _ => ?_, fun i _ => ?_⟩ <;> rw [tcpClients_setClient] <;> split
  · rename_i hi
    exact hi ▸ hloop
  · rfl
  · rename_i hi
    exact hi ▸ hcalled
  · exact id
  · rename_i hi
    exact hi ▸ hdestroyed
  · exact id

/-- A client is made. -/
theorem Settles.make {s₁ : RpcConnectionPool} {c : PoolClient}
    (h : s₁.tcpClients = (s.setClient s.made c).tcpClients) : Settles s s₁ := by
  have hold : ∀ i < s.made, s₁.tcpClients i = s.tcpClients i := by
    intro i hi
    rw [h, tcpClients_setClient, if_neg hi.ne]
  refine ⟨fun i hi => ?_, fun i hi => ?_, fun i hi => ?_⟩ <;> rw [hold i hi]
  · exact id
  · exact id

theorem stopped_settles {thread : Option Nat} {client : Nat} {wait : Bool} {es : List PoolEvent}
    (hstop : Stopped s thread client s' wait es) : Settles s s' := by
  cases hstop with
  | again => exact .of_eq rfl
  | bare _ hloop _ _ hcalled hdestroyed =>
    exact .setClient hloop (fun h => hcalled ▸ h) hdestroyed
  | waits => exact .setClient rfl id id

theorem acts_settles {a : Nat} {place : AcquirePlace} {es : List PoolEvent}
    (hacts : Acts s a place s' es) : Settles s s' := by
  cases hacts with
  | lookup hlookup =>
    cases hlookup with
    | shut | found | room => exact .of_eq rfl
    | evicts => exact .of_eq (uncount_spec s (s.clients (s.acquires a).addr)).1.tcpClients
  | goes | connects | counts | drops | stopped | ret => exact .of_eq rfl
  | connect hconnect =>
    obtain ⟨rfl, -⟩ := Prod.mk.inj hconnect
    exact .make rfl
  | publish hpublish =>
    cases hpublish with
    | shut | added | full => exact .of_eq rfl
  | stops hstop =>
    have hsettles := stopped_settles hstop
    exact ⟨hsettles.loop, hsettles.called, hsettles.destroyed⟩

theorem step_settles {l : PoolLabel} {es : List PoolEvent} (hstep : s.step l = some (s', es)) :
    Settles s s' := by
  have hsteps := step_cases hstep
  cases hsteps with
  | begins | discovers | shutsDown | loop => exact .of_eq rfl
  | acquire hacts => exact acts_settles hacts
  | shutdown hshuts =>
    generalize s.shutdown = place at hshuts
    cases hshuts with
    | stops hstop =>
      have hsettles := stopped_settles hstop
      exact ⟨hsettles.loop, hsettles.called, hsettles.destroyed⟩
    | _ => exact .of_eq rfl
  | establishes _ _ hs₁ =>
    rename_i client _ _ s₁
    have hsettles : Settles s s₁ := by
      rw [hs₁]
      exact .setClient rfl (fun h => absurd h (by simp)) id
    split <;> exact ⟨hsettles.loop, hsettles.called, hsettles.destroyed⟩
  | handles hhandles =>
    cases hhandles with
    | refuses => exact .setClient rfl (fun h => absurd h (by simp)) id
    | destroys => exact .setClient rfl id fun _ => rfl
    | dies => exact .setClient rfl id id

theorem stopped_loop {thread : Option Nat} {client : Nat} {wait : Bool} {es : List PoolEvent}
    (hstop : Stopped s thread client s' wait es) :
    (s'.tcpClients client).loop = (s.tcpClients client).loop := by
  cases hstop with
  | again => rfl
  | bare _ hloop =>
    rw [tcpClients_setClient, if_pos rfl]
    exact hloop
  | waits => rw [tcpClients_setClient, if_pos rfl]

theorem step_made {l : PoolLabel} {es : List PoolEvent} (hstep : s.step l = some (s', es)) :
    s.made ≤ s'.made := by
  have hsteps := step_cases hstep
  cases hsteps with
  | begins | discovers | shutsDown | loop | handles => exact le_rfl
  | acquire hacts =>
    rename_i a input
    generalize (s.acquires a).place = place at hacts
    cases hacts with
    | lookup hlookup =>
      cases hlookup with
      | shut | found | room => exact le_rfl
      | evicts => exact (uncount_spec s (s.clients (s.acquires a).addr)).1.made.ge
    | goes | connects | counts | drops | stopped | ret => exact le_rfl
    | connect hconnect =>
      obtain ⟨rfl, -⟩ := Prod.mk.inj hconnect
      exact Nat.le_succ _
    | publish hpublish => cases hpublish <;> exact le_rfl
    | stops hstop => exact (stopped_same hstop).1.ge
  | shutdown hshuts =>
    generalize s.shutdown = place at hshuts
    cases hshuts with
    | stops hstop => exact (stopped_same hstop).1.ge
    | _ => exact le_rfl
  | establishes _ _ hs₁ =>
    rw [hs₁]
    split <;> exact le_rfl

/-! ## Who moves -/

theorem acts_others {a : Nat} {place : AcquirePlace} {es : List PoolEvent}
    (hacts : Acts s a place s' es) : s'.begun = s.begun ∧
      (∀ b, (s'.acquires b).thread = (s.acquires b).thread) ∧
      ∀ b, b ≠ a → (s'.acquires b).place = (s.acquires b).place := by
  have went : ∀ {s₁ : RpcConnectionPool} {p : AcquirePlace}, s₁.begun = s.begun →
      s₁.acquires = s.acquires → (s₁.goTo a p).begun = s.begun ∧
        (∀ b, ((s₁.goTo a p).acquires b).thread = (s.acquires b).thread) ∧
        ∀ b, b ≠ a → ((s₁.goTo a p).acquires b).place = (s.acquires b).place := by
    intro s₁ p hbegun hacquires
    refine ⟨hbegun, fun b => ?_, fun b hb => ?_⟩
    · rw [thread_goTo, hacquires]
    · rw [acquires_goTo_of_ne _ hb, hacquires]
  cases hacts with
  | lookup hlookup =>
    cases hlookup with
    | shut | found | room => exact went rfl rfl
    | evicts =>
      have hsame := (uncount_spec s (s.clients (s.acquires a).addr)).1
      exact went hsame.begun hsame.acquires
  | goes | counts | drops | stopped | ret => exact went rfl rfl
  | connect hconnect =>
    obtain ⟨rfl, -⟩ := Prod.mk.inj hconnect
    exact went rfl rfl
  | connects =>
    refine ⟨rfl, fun b => ?_, fun b hb => ?_⟩
    · rw [thread_goTo, acquires_seeFor]
      split
      · rename_i hba
        rw [hba]
      · rfl
    · rw [acquires_goTo_of_ne _ hb, acquires_seeFor, if_neg hb]
  | publish hpublish =>
    cases hpublish with
    | shut | added | full => exact went rfl rfl
  | stops hstop =>
    cases hstop <;> exact went rfl rfl

/-- Other steps begin a call or move none. -/
theorem step_still {l : PoolLabel} {es : List PoolEvent} (hstep : s.step l = some (s', es))
    (hl : ∀ a input, l ≠ .acquire a input) {a : Nat} (ha : a < s'.begun) :
    (s'.acquires a).place = .lookup ∨ a < s.begun ∧
      (s'.acquires a).place = (s.acquires a).place ∧
      (s'.acquires a).thread = (s.acquires a).thread := by
  have hsteps := step_cases hstep
  cases hsteps with
  | begins =>
    rw [acquires_beginAcquire]
    split
    · exact Or.inl rfl
    · rename_i hne
      exact Or.inr ⟨Nat.lt_of_le_of_ne (Nat.lt_succ_iff.mp ha) hne, rfl, rfl⟩
  | acquire => exact absurd rfl (hl _ _)
  | discovers | shutsDown | loop | handles => exact Or.inr ⟨ha, rfl, rfl⟩
  | shutdown hshuts =>
    generalize s.shutdown = place at hshuts
    cases hshuts with
    | stops hstop => cases hstop <;> exact Or.inr ⟨ha, rfl, rfl⟩
    | _ => exact Or.inr ⟨ha, rfl, rfl⟩
  | establishes _ _ hs₁ =>
    subst hs₁
    split at ha
    · rename_i hconnected
      rw [if_pos hconnected, acquires_see]
      split <;> exact Or.inr ⟨ha, rfl, rfl⟩
    · rename_i hconnected
      rw [if_neg hconnected]
      exact Or.inr ⟨ha, rfl, rfl⟩

/-! ## The loops -/

/-- The thread has left its loop. -/
def gone (s : RpcConnectionPool) (loop : Nat) : Prop :=
  (s.loops loop).place = .left ∨ (s.loops loop).place = .ended

instance (s : RpcConnectionPool) (loop : Nat) : Decidable (s.gone loop) :=
  inferInstanceAs (Decidable (_ ∨ _))

theorem not_gone_of_free {loop : Nat} (h : s.free loop = true) : ¬ s.gone loop := by
  simp only [free, Bool.and_eq_true, beq_iff_eq] at h
  simp [gone, h.1]

/-- The loop is where it was, and is told to stop if it was before. -/
def SameLoop (s s' : RpcConnectionPool) (loop : Nat) : Prop :=
  (s'.loops loop).place = (s.loops loop).place ∧
    (s'.loops loop).stopFlag = (s.loops loop).stopFlag

theorem sameLoop_of_eq (h : s'.loops = s.loops) (loop : Nat) : SameLoop s s' loop := by
  rw [SameLoop, h]
  exact ⟨rfl, rfl⟩

theorem sameLoop_count (s : RpcConnectionPool) (l : Nat) (n : Int) (loop : Nat) :
    SameLoop s (s.count l n) loop :=
  ⟨(sameButCounts_count s l n).place loop, (sameButCounts_count s l n).stopFlag loop⟩

theorem stopped_loops {thread : Option Nat} {client : Nat} {wait : Bool} {es : List PoolEvent}
    (hstop : Stopped s thread client s' wait es) : s'.loops = s.loops := by
  cases hstop <;> rfl

theorem acts_sameLoop {a : Nat} {place : AcquirePlace} {es : List PoolEvent}
    (hacts : Acts s a place s' es) (loop : Nat) : SameLoop s s' loop := by
  cases hacts with
  | lookup hlookup =>
    cases hlookup with
    | shut | found | room => exact sameLoop_of_eq rfl loop
    | evicts =>
      have hsame := (uncount_spec s (s.clients (s.acquires a).addr)).1
      exact ⟨hsame.place loop, hsame.stopFlag loop⟩
  | goes | connects | stopped | ret => exact sameLoop_of_eq rfl loop
  | counts =>
    rename_i client l
    have hsame := sameLoop_count s l 1 loop
    exact hsame
  | drops =>
    rename_i client l
    have hsame := sameLoop_count s l (-1) loop
    exact hsame
  | connect hconnect =>
    obtain ⟨rfl, -⟩ := Prod.mk.inj hconnect
    exact sameLoop_of_eq rfl loop
  | publish hpublish =>
    cases hpublish with
    | shut | added => exact sameLoop_of_eq rfl loop
    | full =>
      rename_i client l _ _ _
      have hsame := sameLoop_count s l (-1) loop
      exact hsame
  | stops hstop =>
    have hsame := sameLoop_of_eq (stopped_loops hstop) loop
    exact hsame

/-- The steps of the `shutdown` leave the loops where they are, and tell one to stop in `join`. -/
theorem shuts_loops {place : ShutdownPlace} {es : List PoolEvent} (hshuts : Shuts s place s' es)
    (loop : Nat) : (s'.loops loop).place = (s.loops loop).place ∧
      ((s'.loops loop).stopFlag = true →
        (s.loops loop).stopFlag = true ∨ s'.shutdown.joins = true) ∧
      (place.joins = true → s'.shutdown.joins = true) := by
  have still : ∀ {s₁ : RpcConnectionPool}, SameLoop s s₁ loop →
      (place.joins = true → s₁.shutdown.joins = true) →
      (s₁.loops loop).place = (s.loops loop).place ∧
        ((s₁.loops loop).stopFlag = true →
          (s.loops loop).stopFlag = true ∨ s₁.shutdown.joins = true) ∧
        (place.joins = true → s₁.shutdown.joins = true) :=
    fun hsame hjoins => ⟨hsame.1, fun h => Or.inl (hsame.2 ▸ h), hjoins⟩
  cases hshuts with
  | unregisters =>
    rename_i client rest
    have hsame := sameLoop_count s (s.tcpClients client).loop (-1) loop
    exact still hsame fun h => absurd h (by simp [ShutdownPlace.joins])
  | stops hstop =>
    have hsame := sameLoop_of_eq (stopped_loops hstop) loop
    exact still hsame fun h => absurd h (by simp [ShutdownPlace.joins])
  | stopped =>
    exact still (sameLoop_of_eq rfl loop) fun h => absurd h (by simp [ShutdownPlace.joins])
  | joins | joined | ended | clears => exact still (sameLoop_of_eq rfl loop) fun _ => rfl
  | join =>
    rename_i l hloop
    have hjoins : (if s.shutdownThread = some l then ShutdownPlace.join (l + 1)
        else .joining l).joins = true := by
      split <;> rfl
    refine ⟨?_, fun _ => Or.inr hjoins, fun _ => hjoins⟩
    show ((s.setLoop l _).loops loop).place = _
    rw [loops_setLoop]
    split
    · rename_i heq
      rw [heq]
    · rfl

/-- Where the thread of a loop comes to in a step. -/
theorem step_gone {l : PoolLabel} {es : List PoolEvent} (hstep : s.step l = some (s', es))
    {loop : Nat} (hgone : s'.gone loop) : s.gone loop ∨
      l = .leaves loop ∧ (s.loops loop).stopFlag = true ∧ (s'.loops loop).place = .left := by
  have same : SameLoop s s' loop → s.gone loop := by
    intro hsame
    rw [gone, hsame.1] at hgone
    exact hgone
  have hsteps := step_cases hstep
  cases hsteps with
  | begins | discovers | shutsDown | handles => exact Or.inl (same (sameLoop_of_eq rfl loop))
  | acquire hacts => exact Or.inl (same (acts_sameLoop hacts loop))
  | shutdown hshuts =>
    rw [gone, (shuts_loops hshuts loop).1] at hgone
    exact Or.inl hgone
  | establishes _ _ hs₁ =>
    refine Or.inl (same (sameLoop_of_eq ?_ loop))
    split <;> rw [hs₁] <;> rfl
  | loop hplace =>
    rename_i l' place
    rw [gone, loops_setLoop] at hgone
    by_cases hl : loop = l'
    · rw [if_pos hl] at hgone
      subst hl
      rcases hplace with ⟨-, rfl⟩ | ⟨hstop, -, rfl, rfl⟩ | ⟨hleft, -⟩
      · simp at hgone
      · refine Or.inr ⟨rfl, hstop, ?_⟩
        rw [loops_setLoop, if_pos rfl]
      · exact Or.inl (Or.inl hleft)
    · rw [if_neg hl] at hgone
      exact Or.inl hgone

theorem step_ended {l : PoolLabel} {es : List PoolEvent} (hstep : s.step l = some (s', es))
    {loop : Nat} (hended : (s'.loops loop).place = .ended) :
    (s.loops loop).place = .ended ∨ l = .ends loop ∧ (s.loops loop).place = .left := by
  have hsteps := step_cases hstep
  cases hsteps with
  | begins | discovers | shutsDown | handles => exact Or.inl hended
  | acquire hacts => exact Or.inl ((acts_sameLoop hacts loop).1 ▸ hended)
  | shutdown hshuts => exact Or.inl ((shuts_loops hshuts loop).1 ▸ hended)
  | establishes _ _ hs₁ =>
    left
    split at hended <;> rw [hs₁] at hended <;> exact hended
  | loop hplace =>
    rename_i l' place
    rw [loops_setLoop] at hended
    by_cases hl : loop = l'
    · rw [if_pos hl] at hended
      subst hl
      rcases hplace with ⟨-, rfl⟩ | ⟨-, -, rfl, -⟩ | ⟨hleft, -, rfl⟩
      · simp at hended
      · simp at hended
      · exact Or.inr ⟨rfl, hleft⟩
    · rw [if_neg hl] at hended
      exact Or.inl hended

end RpcConnectionPool

end RocketRpc.Rpc
