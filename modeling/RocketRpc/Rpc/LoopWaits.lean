import RocketRpc.Lib.WaitGraph
import RocketRpc.Rpc.PoolClients

/-
  Loops of the pool that wait for one another.

  An `acquire` that is made on the thread of a loop holds this loop up while it waits, in
  `connectSync` or in `stop`, for a task of the loop of a client. The pool chooses no client's
  loop that is the calling one, but looks no further: two calls on two loops may wait for each
  other (`waits_cycle`). As long as no call begins to wait for a loop that is itself held up by
  the caller's, there is no cycle (`waits_acyclic`).
-/

namespace RocketRpc.Rpc

open Machine WaitGraph RpcConnectionPool
open Relation (TransGen)

namespace RpcConnectionPool

variable {s s' : RpcConnectionPool}

/-- The loop for whose task an `acquire` at this place waits. -/
def waitsFor (s : RpcConnectionPool) : AcquirePlace → Option Nat
  | .connecting client _ =>
    if (s.tcpClients client).called.isNone then some (s.tcpClients client).loop else none
  | .stopping client _ =>
    if (s.tcpClients client).destroyed then none else some (s.tcpClients client).loop
  | _ => none

/-- A call on the thread of one loop waits for a task of another. -/
def Waits (s : RpcConnectionPool) (loop other : Nat) : Prop :=
  ∃ a < s.begun, (s.acquires a).thread = some loop ∧
    s.waitsFor (s.acquires a).place = some other

instance (s : RpcConnectionPool) (loop other : Nat) : Decidable (s.Waits loop other) :=
  inferInstanceAs (Decidable (∃ a < s.begun, _ ∧ _))

/-- The loop for which an `acquire` at this place begins to wait with its next step. -/
def nextWait (s : RpcConnectionPool) (thread : Option Nat) :
    AcquirePlace → PoolInput → Option Nat
  | .connect loop, .started true => some loop
  | .stop client _, .none =>
    if (s.stop thread client).2.1 then some (s.tcpClients client).loop else none
  | _, _ => none

/-- A call on the thread of a loop does not begin to wait for a loop that is held up by it,
    directly or through others. -/
def NotBack (s : RpcConnectionPool) : PoolLabel → Prop
  | .acquire a input => ∀ loop other, (s.acquires a).thread = some loop →
      s.nextWait (s.acquires a).thread (s.acquires a).place input = some other →
      ¬ TransGen s.Waits other loop
  | _ => True

/-! ## What begins to wait -/

theorem Settles.waitsFor (h : Settles s s') {place : AcquirePlace} {loop : Nat}
    (hnames : ∀ c ∈ place.names, c < s.made) (hwaits : s'.waitsFor place = some loop) :
    s.waitsFor place = some loop := by
  cases place with
  | connecting client l =>
    have hmade := hnames client (by simp [AcquirePlace.names])
    simp only [RpcConnectionPool.waitsFor, h.loop client hmade] at hwaits ⊢
    split at hwaits
    · rename_i hnone
      rw [if_pos (h.called client hmade hnone), ← hwaits]
    · exact absurd hwaits (by simp)
  | stopping client next =>
    have hmade := hnames client (by cases next <;> simp [AcquirePlace.names])
    simp only [RpcConnectionPool.waitsFor, h.loop client hmade] at hwaits ⊢
    split at hwaits
    · exact absurd hwaits (by simp)
    · rename_i hnot
      rw [if_neg fun hdestroyed => hnot (h.destroyed client hmade hdestroyed), ← hwaits]
  | _ => exact absurd hwaits (by simp [RpcConnectionPool.waitsFor])

/-- Where a call waits after a step, it has waited before or has just moved there. -/
theorem Settles.waits (h : Settles s s') (hplaced : Placed s) (hbegun : s'.begun = s.begun)
    (hthread : ∀ a, (s'.acquires a).thread = (s.acquires a).thread) {loop other : Nat}
    (hwaits : s'.Waits loop other) : s.Waits loop other ∨
      ∃ a, (s'.acquires a).place ≠ (s.acquires a).place ∧ (s.acquires a).thread = some loop ∧
        s'.waitsFor (s'.acquires a).place = some other := by
  obtain ⟨a, ha, hloop, hother⟩ := hwaits
  rw [hthread] at hloop
  by_cases hsame : (s'.acquires a).place = (s.acquires a).place
  · rw [hsame] at hother
    exact Or.inl ⟨a, hbegun ▸ ha, hloop, h.waitsFor (hplaced.named a) hother⟩
  · exact Or.inr ⟨a, hsame, hloop, hother⟩

theorem afterStop_waitsFor (s : RpcConnectionPool) (next : AfterStop) :
    s.waitsFor (AfterStop.place next) = none := by
  cases next <;> rfl

/-- The step of a call after which it waits is the one that `nextWait` says. -/
theorem exec_waitsFor {a : Nat} {place : AcquirePlace} {input : PoolInput} {es : List PoolEvent}
    (hexec : s.exec a place input = some (s', es)) {other : Nat}
    (hother : s'.waitsFor (s'.acquires a).place = some other) :
    s.nextWait (s.acquires a).thread place input = some other := by
  have went : ∀ {s₁ : RpcConnectionPool} {p : AcquirePlace}, s' = s₁.goTo a p →
      s'.waitsFor p = none → s.nextWait (s.acquires a).thread place input = some other := by
    intro s₁ p heq hp
    rw [show (s'.acquires a).place = p by rw [heq, place_goTo], hp] at hother
    exact absurd hother (by simp)
  have hacts := exec_cases hexec
  cases hacts with
  | lookup hlookup =>
    cases hlookup with
    | shut | found | evicts | room => exact went rfl rfl
  | goes hgoes =>
    cases hgoes with
    | stale | choice | noLoop | fails => exact went rfl rfl
  | connects | counts | drops | ret => exact went rfl rfl
  | stopped => exact went rfl (afterStop_waitsFor _ _)
  | publish hpublish =>
    cases hpublish with
    | shut | added | full => exact went rfl rfl
  | connect =>
    rename_i loop _ _
    cases input with
    | started ok =>
      obtain ⟨rfl, -⟩ : (s.connect a loop ok).1 = s' ∧ (s.connect a loop ok).2 = es := by
        simpa [exec, Prod.ext_iff] using hexec
      have hplace : ((s.connect a loop ok).1.acquires a).place = .connecting s.made loop :=
        place_goTo _ _ _
      have hclient : (s.connect a loop ok).1.tcpClients s.made = if ok
          then { addr := (s.acquires a).addr, loop, connection := true, connecting := true }
          else { addr := (s.acquires a).addr, loop, called := some true } :=
        Function.update_self _ _ _
      rw [hplace, waitsFor, hclient] at hother
      cases ok with
      | false => exact absurd hother (by simp)
      | true => simpa [nextWait] using hother
    | _ => simp [exec] at hexec
  | stops =>
    rename_i client next _ _ _
    cases input with
    | none =>
      have hloop := stopped_loop (stop_cases s (s.acquires a).thread client)
      simp only [exec] at hexec
      rw [nextWait]
      generalize s.stop (s.acquires a).thread client = r at hexec hloop ⊢
      obtain ⟨s₁, wait, es₁⟩ := r
      cases wait with
      | true =>
        obtain ⟨heq, -⟩ := Prod.mk.inj (Option.some.inj hexec)
        rw [← heq, place_goTo, waitsFor] at hother
        split at hother
        · exact absurd hother (by simp)
        · rw [if_pos rfl, ← hloop]
          exact hother
      | false =>
        obtain ⟨heq, -⟩ := Prod.mk.inj (Option.some.inj hexec)
        rw [← heq, place_goTo, afterStop_waitsFor] at hother
        exact absurd hother (by simp)
    | _ => simp [exec] at hexec

/-- A call does not wait for the loop that executes it. -/
theorem nextWait_ne {a : Nat} {input : PoolInput} (h : Placed s) {other : Nat}
    (hnext : s.nextWait (s.acquires a).thread (s.acquires a).place input = some other) :
    (s.acquires a).thread ≠ some other := by
  have hchosen := h.chosen a
  generalize (s.acquires a).place = place at hnext hchosen
  unfold nextWait at hnext
  split at hnext
  · exact hchosen other hnext
  · rename_i client next
    have hstop := stop_cases s (s.acquires a).thread client
    generalize s.stop (s.acquires a).thread client = r at hnext hstop
    obtain ⟨s₁, wait, es⟩ := r
    split at hnext
    · rename_i hwait
      obtain rfl : wait = true := hwait
      obtain rfl := Option.some.inj hnext
      cases hstop with
      | waits _ hother => exact hother
    · exact absurd hnext (by simp)
  · exact absurd hnext (by simp)

/-- A call on the thread of a loop only comes to wait with a step of its own. -/
theorem step_waits {l : PoolLabel} {es : List PoolEvent} (h : Placed s)
    (hstep : s.step l = some (s', es)) {loop other : Nat} (hwaits : s'.Waits loop other) :
    s.Waits loop other ∨ ∃ a input, l = .acquire a input ∧ (s.acquires a).thread = some loop ∧
      s.nextWait (s.acquires a).thread (s.acquires a).place input = some other := by
  have hsettles := step_settles hstep
  by_cases hl : ∃ a input, l = .acquire a input
  · obtain ⟨a, input, rfl⟩ := hl
    obtain ⟨hbegun, hthread, hothers⟩ := acts_others (exec_cases hstep)
    rcases hsettles.waits h hbegun hthread hwaits with hwaits | ⟨b, hmoved, hb, hother⟩
    · exact Or.inl hwaits
    · by_cases hba : b = a
      · subst hba
        exact Or.inr ⟨b, input, rfl, hb, exec_waitsFor hstep hother⟩
      · exact absurd (hothers b hba) hmoved
  · obtain ⟨a, ha, hloop, hother⟩ := hwaits
    rcases step_still hstep (fun a input heq => hl ⟨a, input, heq⟩) ha with hlookup | hsame
    · rw [hlookup] at hother
      exact absurd hother (by simp [waitsFor])
    · obtain ⟨hbegun, hplace, hthread⟩ := hsame
      rw [hplace] at hother
      exact Or.inl ⟨a, hbegun, hthread ▸ hloop, hsettles.waitsFor (h.named a) hother⟩

/-! ## No cycle -/

theorem step_acyclic {l : PoolLabel} {es : List PoolEvent} (hplaced : Placed s)
    (h : Acyclic s.Waits) (hback : s.NotBack l) (hstep : s.step l = some (s', es)) :
    Acyclic s'.Waits := by
  by_cases hnext : ∃ a input loop other, l = .acquire a input ∧
      (s.acquires a).thread = some loop ∧
      s.nextWait (s.acquires a).thread (s.acquires a).place input = some other
  · -- the call adds one edge
    obtain ⟨a, input, loop, other, rfl, hloop, hother⟩ := hnext
    have hne : loop ≠ other := fun heq => nextWait_ne hplaced hother (heq ▸ hloop)
    refine h.insert hne (hback loop other hloop hother) fun x y hxy => ?_
    rcases step_waits hplaced hstep hxy with hxy | ⟨b, input', heq, hx, hy⟩
    · exact Or.inl hxy
    · obtain ⟨rfl, rfl⟩ : a = b ∧ input = input' := by simpa using heq
      exact Or.inr ⟨Option.some.inj (hx.symm.trans hloop), Option.some.inj (hy.symm.trans hother)⟩
  · refine h.mono fun x y hxy => ?_
    rcases step_waits hplaced hstep hxy with hxy | ⟨a, input, heq, hx, hy⟩
    · exact hxy
    · exact absurd ⟨a, input, x, y, heq, hx, hy⟩ hnext

/-- Nothing waits for the loop on which a call begins to wait. -/
def Unawaited (s : RpcConnectionPool) : PoolLabel → Prop
  | .acquire a input => (s.nextWait (s.acquires a).thread (s.acquires a).place input).isNone ∨
      ∀ b < s.begun, s.waitsFor (s.acquires b).place ≠ (s.acquires a).thread
  | _ => True

instance (s : RpcConnectionPool) : DecidablePred s.Unawaited
  | .acquire _ _ => inferInstanceAs (Decidable (_ ∨ _))
  | .begins _ _ | .discovers _ _ | .shutsDown _ _ | .shutdown | .loops _ | .establishes _
  | .refuses _ | .destroys _ | .leaves _ | .ends _ | .dies _ => .isTrue trivial

theorem notBack_of_unawaited {l : PoolLabel} (h : s.Unawaited l) : s.NotBack l := by
  cases l with
  | acquire a input =>
    intro loop other hloop hother hback
    rcases h with hnone | hawaited
    · rw [hother] at hnone
      exact absurd hnone (by simp)
    · obtain ⟨x, -, b, hb, -, hx⟩ := Relation.TransGen.tail'_iff.mp hback
      exact hawaited b hb (hx.trans hloop.symm)
  | _ => trivial

/-- A call on each of the two loops connects a client on the other one. -/
def crossConnects : List PoolLabel :=
  [.loops 0, .loops 1, .begins [97] (some 0), .acquire 0 (.loads [0, 0] [0, 0]),
    .acquire 0 .none, .acquire 0 (.started true), .begins [98] (some 1),
    .acquire 1 (.loads [0, 0] []), .acquire 1 .none]

end RpcConnectionPool

end RocketRpc.Rpc
