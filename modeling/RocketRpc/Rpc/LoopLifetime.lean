import RocketRpc.Rpc.PoolAccounting
import RocketRpc.Rpc.PoolCalls

/-
  No use of a loop that has ended.

  The loops live on the stacks of their threads and end in `m_io_group.join`, while calls to
  `acquire` and calls over the clients keep pointers to them. `needs` says which loops an
  `acquire` may still dereference from its place on, and `mayUse` whether a call may; both only
  fade once the loop has ended. So where a loop that ends is needed by nobody, and no call is
  given a client whose loop has ended, nothing is dereferenced that is gone (`uses_alive`).
  Neither is looked at in `shutdown`: an `acquire` that is overtaken by it counts its new
  connection on a loop that is gone (`uses_ended`).
-/

namespace RocketRpc.Rpc

open Machine World RocketRpc.Tcp RocketRpc.Coder

variable {Message : Type} {parse : Bytes → Message × Bool}

namespace RpcConnectionPool

variable {s s' : RpcConnectionPool}

/-! ## What an `acquire` still needs -/

/-- `stop` of the client would dereference the loop. -/
def stopUses (s : RpcConnectionPool) (loop client : Nat) : Bool :=
  (s.tcpClients client).loop == loop && (s.tcpClients client).connection &&
    !(s.tcpClients client).stopped

/-- The end of `connectSync` is followed by a dereference of the client's loop. -/
def connectUses (s : RpcConnectionPool) (client : Nat) : Bool :=
  (s.tcpClients client).called != some true || (s.tcpClients client).connection

def needsAfter (s : RpcConnectionPool) (loop : Nat) : AfterStop → Bool
  | .stale rest choice => choice == some loop || rest.any (s.stopUses loop)
  | .ret _ => false

/-- An `acquire` at this place may still dereference the loop. -/
def needs (s : RpcConnectionPool) (loop : Nat) : AcquirePlace → Bool
  | .stopStale stale choice => s.needsAfter loop (.stale stale choice)
  | .connect l | .connected _ l | .publish _ l | .drop _ l => l == loop
  | .connecting client l => l == loop && s.connectUses client
  | .stop client next => s.stopUses loop client || s.needsAfter loop next
  | .stopping _ next => s.needsAfter loop next
  | .lookup | .ret _ | .over => false

theorem needs_afterStop (s : RpcConnectionPool) (loop : Nat) (next : AfterStop) :
    s.needs loop (AfterStop.place next) = s.needsAfter loop next := by
  cases next <;> rfl

/-- With the loop gone, no client comes to need it that did not before. -/
structure Fades (s s' : RpcConnectionPool) (loop : Nat) : Prop where
  stopUses : ∀ c < s.made, s'.stopUses loop c = true → s.stopUses loop c = true
  connectUses : ∀ c < s.made, (s.tcpClients c).loop = loop → s'.connectUses c = true →
    s.connectUses c = true

theorem Fades.of_eq {loop : Nat} (h : s'.tcpClients = s.tcpClients) : Fades s s' loop := by
  refine ⟨fun c _ => ?_, fun c _ _ => ?_⟩
  · rw [RpcConnectionPool.stopUses, h]
    exact id
  · rw [RpcConnectionPool.connectUses, h]
    exact id

theorem Fades.setClient {client loop : Nat} {c : PoolClient}
    (hloop : c.loop = (s.tcpClients client).loop)
    (hstopped : (s.tcpClients client).loop = loop → c.connection = true → c.stopped = false →
      (s.tcpClients client).connection = true ∧ (s.tcpClients client).stopped = false)
    (hcalled : (s.tcpClients client).loop = loop → c.called ≠ some true ∨ c.connection = true →
      (s.tcpClients client).called ≠ some true ∨ (s.tcpClients client).connection = true) :
    Fades s (s.setClient client c) loop := by
  refine ⟨fun i _ => ?_, fun i _ hi => ?_⟩
  · simp only [RpcConnectionPool.stopUses, tcpClients_setClient]
    split
    · rename_i heq
      simp only [Bool.and_eq_true, beq_iff_eq, Bool.not_eq_true', heq]
      rintro ⟨⟨hl, hconnection⟩, hnot⟩
      obtain ⟨h₁, h₂⟩ := hstopped (hloop.symm.trans hl) hconnection hnot
      exact ⟨⟨hloop.symm.trans hl, h₁⟩, h₂⟩
    · exact id
  · simp only [RpcConnectionPool.connectUses, tcpClients_setClient]
    split
    · rename_i heq
      subst heq
      simpa only [Bool.or_eq_true, bne_iff_ne] using hcalled hi
    · exact id

theorem stopped_fades {thread : Option Nat} {client : Nat} {wait : Bool} {es : List PoolEvent}
    (hstop : Stopped s thread client s' wait es) (loop : Nat) : Fades s s' loop := by
  cases hstop with
  | again => exact .of_eq rfl
  | bare _ hloop hconnection _ hcalled =>
    refine .setClient hloop (fun _ h => absurd h (by simp [hconnection])) fun _ h => ?_
    rw [hcalled] at h
    exact h.imp_right fun h => absurd h (by simp [hconnection])
  | waits =>
    exact .setClient rfl (fun _ h => absurd h (by simp)) fun _ h =>
      h.imp_right fun h => absurd h (by simp)

theorem acts_fades {a : Nat} {place : AcquirePlace} {es : List PoolEvent}
    (hacts : Acts s a place s' es) (loop : Nat) : Fades s s' loop := by
  cases hacts with
  | lookup hlookup =>
    cases hlookup with
    | shut | found | room => exact .of_eq rfl
    | evicts => exact .of_eq (uncount_spec s (s.clients (s.acquires a).addr)).1.tcpClients
  | goes | connects | counts | drops | stopped | ret => exact .of_eq rfl
  | connect hconnect =>
    rename_i l ok
    have hs₁ : (s.connect a l ok).1 = s' := congrArg Prod.fst hconnect
    -- the client that is made now is none of those made before
    have hold : ∀ c < s.made, s'.tcpClients c = s.tcpClients c := by
      intro c hc
      rw [← hs₁]
      exact Function.update_of_ne hc.ne _ _
    refine ⟨fun c hc => ?_, fun c hc _ => ?_⟩
    · rw [RpcConnectionPool.stopUses, hold c hc]
      exact id
    · rw [RpcConnectionPool.connectUses, hold c hc]
      exact id
  | publish hpublish =>
    cases hpublish with
    | shut | added | full => exact .of_eq rfl
  | stops hstop =>
    have hfades := stopped_fades hstop loop
    exact ⟨hfades.stopUses, hfades.connectUses⟩

theorem step_fades {l : PoolLabel} {es : List PoolEvent} (hstep : s.step l = some (s', es))
    {loop : Nat} (hgone : s.gone loop) : Fades s s' loop := by
  -- a loop that calls back is one that runs
  have running : ∀ {c : Nat}, s.free (s.tcpClients c).loop = true →
      (s.tcpClients c).loop ≠ loop := by
    rintro c hfree rfl
    exact not_gone_of_free hfree hgone
  have hsteps := step_cases hstep
  cases hsteps with
  | begins | discovers | shutsDown | loop => exact .of_eq rfl
  | acquire hacts => exact acts_fades hacts loop
  | shutdown hshuts =>
    generalize s.shutdown = place at hshuts
    cases hshuts with
    | stops hstop =>
      have hfades := stopped_fades hstop loop
      exact ⟨hfades.stopUses, hfades.connectUses⟩
    | _ => exact .of_eq rfl
  | establishes _ hfree hs₁ =>
    rename_i client _ s₁
    have hne := running hfree
    have hfades : Fades s s₁ loop := by
      rw [hs₁]
      exact .setClient rfl (fun h => absurd h hne) fun h => absurd h hne
    split <;> exact ⟨hfades.stopUses, hfades.connectUses⟩
  | handles hhandles =>
    cases hhandles with
    | refuses _ hfree =>
      have hne := running hfree
      exact .setClient rfl (fun h => absurd h hne) fun h => absurd h hne
    | destroys _ hfree =>
      have hne := running hfree
      exact .setClient rfl (fun h => absurd h hne) fun h => absurd h hne
    | dies => exact .setClient rfl (fun _ h₁ h₂ => ⟨h₁, h₂⟩) fun _ => id

theorem Fades.stopUses_false {loop client : Nat} (h : Fades s s' loop) (hmade : client < s.made)
    (hnot : s.stopUses loop client = false) : s'.stopUses loop client = false := by
  by_contra huses
  have hbefore := h.stopUses client hmade (by simpa using huses)
  exact absurd (hnot.symm.trans hbefore) (by simp)

theorem Fades.needsAfter {loop : Nat} {next : AfterStop} (h : Fades s s' loop)
    (hnames : ∀ c ∈ (AfterStop.place next).names, c < s.made)
    (hnot : s.needsAfter loop next = false) : s'.needsAfter loop next = false := by
  cases next with
  | stale rest choice =>
    simp only [RpcConnectionPool.needsAfter, Bool.or_eq_false_iff, List.any_eq_false] at hnot ⊢
    refine ⟨hnot.1, fun c hc => ?_⟩
    rw [h.stopUses_false (hnames c hc) (by simpa using hnot.2 c hc)]
    simp
  | ret => rfl

/-- A call that does not move comes to need nothing. -/
theorem Fades.needs {loop : Nat} {place : AcquirePlace} (h : Fades s s' loop)
    (hnames : ∀ c ∈ place.names, c < s.made)
    (hown : ∀ c l, place.own = some (c, l) → (s.tcpClients c).loop = l)
    (hnot : s.needs loop place = false) : s'.needs loop place = false := by
  cases place with
  | lookup | connect | connected | publish | drop | ret | «over» => exact hnot
  | stopStale stale choice =>
    have hafter : s'.needsAfter loop (.stale stale choice) = false := h.needsAfter hnames hnot
    exact hafter
  | connecting client l =>
    simp only [RpcConnectionPool.needs, Bool.and_eq_false_iff] at hnot ⊢
    by_cases hl : l = loop
    · right
      by_contra huses
      have hbefore := h.connectUses client (hnames client (by simp [AcquirePlace.names]))
        ((hown client l rfl).trans hl) (by simpa using huses)
      rcases hnot with hne | hnot
      · simp [hl] at hne
      · exact absurd (hnot.symm.trans hbefore) (by simp)
    · exact Or.inl (by simpa using hl)
  | stop client next =>
    simp only [RpcConnectionPool.needs, Bool.or_eq_false_iff] at hnot ⊢
    refine ⟨h.stopUses_false (hnames client ?_) hnot.1, h.needsAfter (fun c hc => ?_) hnot.2⟩
    · cases next <;> simp [AcquirePlace.names]
    · exact hnames c (names_afterStop hc)
  | stopping client next =>
    refine h.needsAfter (fun c hc => hnames c ?_) hnot
    rw [names_stopping]
    exact names_afterStop hc

/-- A client on another loop does not need this one. -/
theorem stopUses_of_ne {loop client : Nat} (h : (s.tcpClients client).loop ≠ loop) :
    s.stopUses loop client = false := by
  simp [stopUses, h]

/-- A call that moves comes to need no loop that it did not need and that is gone. -/
theorem acts_needs {a loop : Nat} {place : AcquirePlace} {es : List PoolEvent}
    (hplace : (s.acquires a).place = place) (hshut : s.isShutdown = true)
    (hnames : ∀ c ∈ place.names, c < s.made)
    (hown : ∀ c l, place.own = some (c, l) → (s.tcpClients c).loop = l)
    (hnot : s.needs loop place = false) (hacts : Acts s a place s' es) :
    s'.needs loop (s'.acquires a).place = false := by
  have hopen : s.isShutdown = false → s'.needs loop (s'.acquires a).place = false :=
    fun h => absurd (hshut.symm.trans h) (by simp)
  -- what `stop` of the client at hand needs is what the place before it does
  have stops : ∀ {client l : Nat}, place.own = some (client, l) → (l == loop) = false →
      s.stopUses loop client = false := by
    intro client l hcl hl
    refine stopUses_of_ne fun heq => ?_
    rw [← hown client l hcl, heq] at hl
    simp at hl
  cases hacts with
  | lookup hlookup =>
    cases hlookup with
    | shut | found => rw [place_goTo]; rfl
    | evicts h => exact hopen h
    | room h => exact hopen h
  | goes hgoes =>
    rw [place_goTo]
    cases hgoes with
    | stale =>
      simp only [needs, needsAfter, List.any_cons, Bool.or_eq_false_iff] at hnot ⊢
      exact ⟨hnot.2.1, hnot.1, hnot.2.2⟩
    | choice =>
      simp only [needs, needsAfter, Bool.or_eq_false_iff] at hnot ⊢
      simpa using hnot.1
    | noLoop => rfl
    | fails =>
      rename_i client l
      simp only [needs, needsAfter, Bool.and_eq_false_iff, Bool.or_false] at hnot ⊢
      rcases hnot with hl | huses
      · exact stops rfl hl
      · have hconnection : (s.tcpClients client).connection = false := by
          simp only [connectUses, Bool.or_eq_false_iff] at huses
          exact huses.2
        show s.stopUses loop client = false
        simp [stopUses, hconnection]
  | connect hconnect =>
    rename_i l ok
    have hs₁ : (s.connect a l ok).1 = s' := congrArg Prod.fst hconnect
    have hat : (s'.acquires a).place = .connecting s.made l := by
      rw [← hs₁]
      exact place_goTo _ _ _
    have hl : (l == loop) = false := hnot
    rw [hat, needs, hl]
    rfl
  | connects hcalled =>
    rename_i client l
    rw [place_goTo]
    have huses : s.connectUses client = true := by simp [connectUses, hcalled]
    simpa [needs, huses] using hnot
  | counts =>
    rw [place_goTo]
    exact hnot
  | publish hpublish =>
    cases hpublish with
    | shut =>
      rw [place_goTo]
      exact hnot
    | added => rw [place_goTo]; rfl
    | full h => exact hopen h
  | drops =>
    rename_i client l
    rw [place_goTo]
    have huses := stops rfl hnot
    simp only [needs, needsAfter, Bool.or_false]
    exact huses
  | stops hstop =>
    rename_i client next s₁ wait
    simp only [needs, Bool.or_eq_false_iff] at hnot
    have hafter : s₁.needsAfter loop next = false :=
      (stopped_fades hstop loop).needsAfter (fun c hc => hnames c (names_afterStop hc)) hnot.2
    rw [place_goTo]
    split
    · exact hafter
    · exact (needs_afterStop _ loop next).trans hafter
  | stopped =>
    rw [place_goTo]
    exact (needs_afterStop s loop _).trans hnot
  | ret => rw [place_goTo]; rfl

/-! ## The pool while its loops end -/

/-- A loop is told to stop in `join` only, and what has ended is needed by no call. -/
structure Kept (s : RpcConnectionPool) : Prop where
  balanced : Balanced s
  placed : Placed s
  told : ∀ loop, (s.loops loop).stopFlag = true ∨ s.gone loop → s.shutdown.joins = true
  needless : ∀ loop, (s.loops loop).place = .ended → ∀ a,
    s.needs loop (s.acquires a).place = false

theorem kept_new (ioThreads connsPerAddr : Nat) : Kept (new ioThreads connsPerAddr) where
  balanced := balanced_new ioThreads connsPerAddr
  placed := placed_new ioThreads connsPerAddr
  told _ h := absurd h (by simp [new, gone])
  needless _ _ _ := rfl

theorem left_of_joins {place : ShutdownPlace} (h : place.joins = true) : place.left = some [] := by
  cases place with
  | join | joining | clear | done => rfl
  | idle | unregister | stop | stopping => exact absurd h (by simp [ShutdownPlace.joins])

/-- The pool is shut down before a loop ends. -/
theorem Kept.shut (h : Kept s) {loop : Nat} (hended : (s.loops loop).place = .ended) :
    s.isShutdown = true :=
  (h.balanced.left [] (left_of_joins (h.told loop (Or.inr (Or.inr hended))))).1

theorem acts_shutdown {a : Nat} {place : AcquirePlace} {es : List PoolEvent}
    (hacts : Acts s a place s' es) : s'.shutdown = s.shutdown := by
  cases hacts with
  | lookup hlookup =>
    cases hlookup with
    | shut | found | room => rfl
    | evicts => exact (uncount_spec s (s.clients (s.acquires a).addr)).1.shutdown
  | goes | connects | counts | drops | stopped | ret => rfl
  | connect hconnect =>
    obtain ⟨rfl, -⟩ := Prod.mk.inj hconnect
    rfl
  | publish hpublish => cases hpublish <;> rfl
  | stops hstop => cases hstop <;> rfl

theorem step_joins {l : PoolLabel} {es : List PoolEvent} (hstep : s.step l = some (s', es))
    (hjoins : s.shutdown.joins = true) : s'.shutdown.joins = true := by
  have hsteps := step_cases hstep
  cases hsteps with
  | begins | discovers | loop | handles => exact hjoins
  | acquire hacts => exact acts_shutdown hacts ▸ hjoins
  | shutsDown hidle => exact absurd hjoins (by simp [hidle, ShutdownPlace.joins])
  | shutdown hshuts => exact (shuts_loops hshuts 0).2.2 hjoins
  | establishes _ _ hs₁ =>
    rw [hs₁]
    split <;> exact hjoins

theorem step_told {l : PoolLabel} {es : List PoolEvent} (h : Kept s)
    (hstep : s.step l = some (s', es)) {loop : Nat}
    (htold : (s'.loops loop).stopFlag = true ∨ s'.gone loop) : s'.shutdown.joins = true := by
  have before : (s.loops loop).stopFlag = true ∨ s.gone loop → s'.shutdown.joins = true :=
    fun htold => step_joins hstep (h.told loop htold)
  rcases htold with hstop | hgone
  · have same : s'.loops = s.loops → s'.shutdown.joins = true :=
      fun heq => before (Or.inl (heq ▸ hstop))
    have hsteps := step_cases hstep
    cases hsteps with
    | begins | discovers | shutsDown | handles => exact same rfl
    | acquire hacts => exact before (Or.inl ((acts_sameLoop hacts loop).2 ▸ hstop))
    | shutdown hshuts =>
      rcases (shuts_loops hshuts loop).2.1 hstop with hstop | hjoins
      · exact before (Or.inl hstop)
      · exact hjoins
    | establishes _ _ hs₁ =>
      refine same ?_
      split <;> rw [hs₁] <;> rfl
    | loop =>
      rw [loops_setLoop] at hstop
      split at hstop
      · rename_i heq
        exact before (Or.inl (heq ▸ hstop))
      · exact before (Or.inl hstop)
  · rcases step_gone hstep hgone with hgone | ⟨-, hstop, -⟩
    · exact before (Or.inr hgone)
    · exact before (Or.inl hstop)

/-- No call needs the loop. -/
def Unneeded (s : RpcConnectionPool) (loop : Nat) : Prop :=
  ∀ a < s.begun, s.needs loop (s.acquires a).place = false

theorem step_needless {l : PoolLabel} {es : List PoolEvent} (h : Kept s)
    (hstep : s.step l = some (s', es)) {loop : Nat} (hended : (s.loops loop).place = .ended)
    (a : Nat) : s'.needs loop (s'.acquires a).place = false := by
  have hnot := h.needless loop hended a
  have hown : ∀ c l, (s.acquires a).place.own = some (c, l) → (s.tcpClients c).loop = l :=
    fun c l hcl => (h.balanced.own a c l hcl).2.2.1
  have still : (s'.acquires a).place = (s.acquires a).place →
      s'.needs loop (s'.acquires a).place = false := by
    intro heq
    rw [heq]
    exact (step_fades hstep (Or.inr hended)).needs (h.placed.named a) hown hnot
  by_cases hl : ∃ b input, l = .acquire b input
  · obtain ⟨b, input, rfl⟩ := hl
    have hacts := exec_cases hstep
    by_cases hab : a = b
    · subst hab
      exact acts_needs rfl (h.shut hended) (h.placed.named a) hown hnot hacts
    · exact still ((acts_others hacts).2.2 a hab)
  · by_cases ha : a < s'.begun
    · rcases step_still hstep (fun b input heq => hl ⟨b, input, heq⟩) ha with hlookup | hsame
      · rw [hlookup]
        rfl
      · exact still hsame.2.1
    · rw [(step_balanced h.balanced hstep).unbegun a (Nat.le_of_not_lt ha)]
      rfl

theorem step_kept {l : PoolLabel} {es : List PoolEvent} (h : Kept s)
    (hok : ∀ loop, l = .ends loop → s.Unneeded loop) (hstep : s.step l = some (s', es)) :
    Kept s' where
  balanced := step_balanced h.balanced hstep
  placed := step_placed h.placed hstep
  told _ htold := step_told h hstep htold
  needless loop hended a := by
    rcases step_ended hstep hended with hended | ⟨rfl, hleft⟩
    · exact step_needless h hstep hended a
    · obtain ⟨rfl, -⟩ : s.setLoop loop { s.loops loop with place := .ended } = s' ∧ [] = es := by
        simpa [step, hleft] using hstep
      by_cases ha : a < s.begun
      · exact hok loop rfl a ha
      · show s.needs loop (s.acquires a).place = false
        rw [h.balanced.unbegun a (Nat.le_of_not_lt ha)]
        rfl

theorem alive_of_not_ended {loop : Nat} (h : (s.loops loop).place ≠ .ended) :
    s.alive loop = true := by
  simpa [alive] using h

theorem stopped_uses {thread : Option Nat} {client loop : Nat} {wait alive : Bool}
    {es : List PoolEvent} (hstop : Stopped s thread client s' wait es)
    (hmem : .uses loop alive ∈ es) : s.stopUses loop client = true ∧ alive = s.alive loop := by
  cases hstop with
  | again => exact absurd hmem (by simp)
  | bare _ _ _ _ _ _ hes =>
    rcases hes with rfl | ⟨rfl, hstopped, hconnection⟩
    · exact absurd hmem (by simp)
    · obtain ⟨rfl, rfl⟩ : loop = _ ∧ alive = _ := by simpa [use] using hmem
      simp [stopUses, hstopped, hconnection]
  | waits hopen =>
    obtain ⟨rfl, rfl⟩ : loop = _ ∧ alive = _ := by simpa [use] using hmem
    simp [stopUses, hopen.1, hopen.2]

/-- A loop that an `acquire` dereferences is one that it has needed, or the pool is open. -/
theorem acts_uses {a loop : Nat} {place : AcquirePlace} {alive : Bool} {es : List PoolEvent}
    (hacts : Acts s a place s' es) (hmem : .uses loop alive ∈ es) :
    (s.isShutdown = false ∨ s.needs loop place = true) ∧ alive = s.alive loop := by
  have one : ∀ {l : Nat}, .uses loop alive ∈ [s.use l] → loop = l ∧ alive = s.alive loop := by
    intro l hl
    obtain ⟨rfl, rfl⟩ : loop = l ∧ alive = s.alive l := by simpa [use] using hl
    exact ⟨rfl, rfl⟩
  have many : ∀ {ls : List Nat}, .uses loop alive ∈ ls.map s.use → alive = s.alive loop := by
    intro ls hls
    obtain ⟨l, -, heq⟩ := List.mem_map.mp hls
    obtain ⟨rfl, rfl⟩ : l = loop ∧ s.alive l = alive := by simpa [use] using heq
    rfl
  cases hacts with
  | lookup hlookup =>
    cases hlookup with
    | shut | found => exact absurd hmem (by simp)
    | evicts hopen =>
      refine ⟨Or.inl hopen, ?_⟩
      rcases List.mem_append.mp hmem with hmem | hmem
      · obtain ⟨c, -, heq⟩ := List.mem_map.mp hmem
        exact (one (List.mem_singleton.mpr heq.symm)).2
      · exact many hmem
    | room hopen => exact ⟨Or.inl hopen, many hmem⟩
  | goes | connects | stopped | ret => exact absurd hmem (by simp)
  | connect hconnect =>
    rename_i l ok
    have hes : (s.connect a l ok).2 = es := congrArg Prod.snd hconnect
    rw [← hes] at hmem
    cases ok with
    | false => exact absurd hmem (by simp [connect])
    | true =>
      obtain ⟨rfl, halive⟩ := one hmem
      exact ⟨Or.inr (by simp [needs]), halive⟩
  | counts | drops =>
    obtain ⟨rfl, halive⟩ := one hmem
    exact ⟨Or.inr (by simp [needs]), halive⟩
  | publish hpublish =>
    cases hpublish with
    | shut | added => exact absurd hmem (by simp)
    | full hopen => exact ⟨Or.inl hopen, (one hmem).2⟩
  | stops hstop =>
    obtain ⟨huses, halive⟩ := stopped_uses hstop hmem
    exact ⟨Or.inr (by simp [needs, huses]), halive⟩

/-- The pool dereferences loops that are there. -/
theorem step_uses {l : PoolLabel} {es : List PoolEvent} (h : Kept s)
    (hstep : s.step l = some (s', es)) {loop : Nat} {alive : Bool}
    (hmem : .uses loop alive ∈ es) : alive = true := by
  have hsteps := step_cases hstep
  cases hsteps with
  | acquire hacts =>
    obtain ⟨hneeds, rfl⟩ := acts_uses hacts hmem
    refine alive_of_not_ended fun hended => ?_
    rcases hneeds with hopen | hneeds
    · exact absurd ((h.shut hended).symm.trans hopen) (by simp)
    · exact absurd ((h.needless loop hended _).symm.trans hneeds) (by simp)
  | shutdown hshuts =>
    -- the clients are unregistered and stopped before the loops are joined
    have early : s.shutdown.joins = false → s.alive loop = true := by
      intro hnot
      refine alive_of_not_ended fun hended => ?_
      exact absurd ((h.told loop (Or.inr (Or.inr hended))).symm.trans hnot) (by simp)
    generalize s.shutdown = place at hshuts early
    cases hshuts with
    | unregisters =>
      obtain ⟨rfl, rfl⟩ : loop = _ ∧ alive = _ := by simpa [use] using hmem
      exact early rfl
    | stops hstop =>
      obtain ⟨-, rfl⟩ := stopped_uses hstop hmem
      exact early rfl
    | _ => exact absurd hmem (by simp)
  | _ => exact absurd hmem (by simp)

end RpcConnectionPool

/-! ## What a call may still use -/

/-- The caller's thread has not come to send, or may still finish the call with its timer set. -/
def World.mayUse (w : World Message) : Bool :=
  (w.threads caller).code.any (fun op => op.phase != .past) ||
    match (w.threads caller).finishing with
    | some (_, .dropTimer) => w.state.timer
    | some _ => false
    | none => w.state.timer && !w.state.finished && !(w.threads caller).code.isEmpty

theorem mayUse_eq_false_iff {w : World Message} : w.mayUse = false ↔
    (∀ op ∈ (w.threads caller).code, op.phase = .past) ∧
      (∀ f, (w.threads caller).finishing = some (f, .dropTimer) → w.state.timer = false) ∧
      ((w.threads caller).finishing = none →
        w.state.timer = false ∨ w.state.finished = true ∨ (w.threads caller).code = []) := by
  rw [World.mayUse, Bool.or_eq_false_iff, List.any_eq_false]
  refine and_congr (by simp) ?_
  split
  · rename_i f hat
    simp [hat]
  · rename_i r f hne hat
    rw [hat]
    simp only [Option.some.injEq, true_iff]
    refine ⟨?_, by simp⟩
    rintro g rfl
    exact absurd rfl (hne g)
  · rename_i hat
    rw [hat]
    simp only [Bool.and_eq_false_iff, Bool.not_eq_false']
    simp [or_assoc]

theorem usesLoop_of_not_mayUse {w : World Message} {input : Input} (h : w.mayUse = false) :
    w.usesLoop (.thread caller input) = false := by
  obtain ⟨hpast, hdrop, -⟩ := mayUse_eq_false_iff.mp h
  rw [World.usesLoop]
  split
  · rename_i f code hat
    exact hdrop f (by rw [hat])
  · rename_i rest hat
    exact absurd (hpast .addTimer (by simp [hat])) (by simp [Op.phase])
  · rename_i rest hat
    exact absurd (hpast .send (by simp [hat])) (by simp [Op.phase])
  · rfl

/-- A caller that does not use the loop any more goes on not to. -/
theorem exec_mayUse {w w' : World Message} {op : Op Message} {rest : List (Op Message)}
    {input : Input} {es : List (Event Message)} (h : w.mayUse = false)
    (hat : w.threads caller = ⟨none, op :: rest⟩)
    (hexec : w.exec caller rest op input = some (w', es)) : w'.mayUse = false := by
  obtain ⟨hpast, -, hdone⟩ := mayUse_eq_false_iff.mp h
  rw [hat] at hpast hdone
  have hop := hpast op List.mem_cons_self
  have hrest : ∀ x ∈ rest, x.phase = .past := fun x hx => hpast x (List.mem_cons_of_mem _ hx)
  have hfinished : w.state.timer = false ∨ w.state.finished = true :=
    (hdone rfl).imp_right fun h => h.resolve_right (by simp)
  -- the thread does other operations, none of which sends
  have next : ∀ {code : List (Op Message)}, (∀ x ∈ code, x.phase = .past) →
      (w.goOn caller code).mayUse = false := by
    intro code hcode
    rw [mayUse_eq_false_iff, threads_goOn]
    refine ⟨hcode, by simp, fun _ => ?_⟩
    exact hfinished.imp_right Or.inl
  have cons : ∀ {x : Op Message}, x.phase = .past → ∀ y ∈ x :: rest, y.phase = .past := by
    intro x hx y hy
    rcases List.mem_cons.mp hy with rfl | hy
    · exact hx
    · exact hrest y hy
  have hdoes := does_of_exec hexec
  cases hdoes with
  | won hopen =>
    have htimer := hfinished.resolve_right (by simp [hopen])
    rw [mayUse_eq_false_iff, threads_setThread, if_pos rfl]
    exact ⟨hrest, fun _ _ => htimer, by simp⟩
  | lost | waited | returned => exact next hrest
  | waits | woken => exact next (cons rfl)
  | timedOut =>
    refine next fun y hy => ?_
    rcases List.mem_cons.mp hy with rfl | hy
    · rfl
    · exact cons rfl y hy
  | _ => exact absurd hop (by simp [Op.phase])

theorem finish_mayUse {w : World Message} {f : Finisher} {stage : Stage Message}
    {code : List (Op Message)} (h : w.mayUse = false) (hfinished : w.state.finished = true)
    (hat : w.threads caller = ⟨some (f, stage), code⟩) :
    (w.finish parse caller f code stage).1.mayUse = false := by
  obtain ⟨hpast, -, -⟩ := mayUse_eq_false_iff.mp h
  rw [hat] at hpast
  have later : ∀ {w₁ : World Message} {stage' : Stage Message}, stage' ≠ .dropTimer →
      (w₁.setThread caller ⟨some (f, stage'), code⟩).mayUse = false := by
    intro w₁ stage' hne
    rw [mayUse_eq_false_iff, threads_setThread, if_pos rfl]
    refine ⟨hpast, fun g hg => ?_, by simp⟩
    exact absurd (Prod.mk.inj (Option.some.inj hg)).2 hne
  have out : ∀ {w₁ : World Message}, w₁.state.finished = true →
      (w₁.goOn caller code).mayUse = false := by
    intro w₁ hw₁
    rw [mayUse_eq_false_iff, threads_goOn]
    exact ⟨hpast, by simp, fun _ => Or.inr (Or.inl hw₁)⟩
  cases stage with
  | dropTimer | cancelRead =>
    simp only [finish]
    split <;> exact later (by simp)
  | beforeDone => exact later (by simp)
  | writing writes => cases writes <;> exact later (by simp)
  | runDone =>
    simp only [finish]
    split
    · exact out hfinished
    · exact out hfinished
    · refine out ?_
      exact hfinished

theorem step_mayUse {w w' : World Message} {input : Input} {es : List (Event Message)}
    (hthreads : TwoThreaded w) (h : w.mayUse = false)
    (hstep : w.step parse (.thread caller input) = some (w', es)) : w'.mayUse = false := by
  rcases step_thread hstep with ⟨f, stage, code, hat, -, rfl, -⟩ | ⟨op, rest, hat, hexec⟩
  · refine finish_mayUse h ?_ hat
    -- only the winner of the gate is inside of `finishRpc`
    by_contra hopen
    obtain ⟨p, hp⟩ := hthreads.keeps
    have hwinner := hp.winner caller f stage (by rw [hat])
    rw [hp.open (by simpa using hopen)] at hwinner
    exact absurd hwinner (by simp)
  · exact exec_mayUse h hat hexec

namespace PoolCalls

variable {s s' : PoolCalls Message}

/-- The client that `acquire` call `a` is about to return. -/
def returns (s : PoolCalls Message) (a : Nat) : Option Nat :=
  match (s.pool.acquires a).place with
  | .ret client => client
  | _ => none

/-- No call of either kind may still dereference a loop that ends, and none is given a client
    whose loop has ended. -/
def LoopKept (s : PoolCalls Message) : CallsLabel Message → Prop
  | .pool (.ends loop) => s.pool.Unneeded loop ∧ ∀ k < s.begun, ∀ c ∈ s.calls k,
      s.loopOf c.client = loop → c.world.mayUse = false
  | .acquired a _ => ∀ client ∈ s.returns a, s.pool.alive (s.loopOf client) = true
  | .cached client _ _ => s.pool.alive (s.loopOf client) = true
  | _ => True

/-- What the runs keep in which the loops end as they should. -/
structure Lasting (s : PoolCalls Message) : Prop where
  steady : Steady s
  pool : s.pool.Kept
  unused : ∀ k c, s.calls k = some c → (s.pool.loops (s.loopOf c.client)).place = .ended →
    c.world.mayUse = false

theorem clear_mayUse (es : List PoolEvent) (c : PoolCall Message) :
    (c.clear es).world.mayUse = c.world.mayUse := by
  unfold PoolCall.clear
  split <;> rfl

/-- A step of the pool leaves the calls over loops that have ended without a use of them. -/
theorem Lasting.unused_setPool (h : Lasting s) {l : PoolLabel} {pool : RpcConnectionPool}
    {es : List PoolEvent} (hstep : s.pool.step l = some (pool, es))
    (hends : ∀ k c, s.calls k = some c → l = .ends (s.loopOf c.client) →
      c.world.mayUse = false) {k : Nat} {c : PoolCall Message}
    (hc : (s.setPool pool es).calls k = some c)
    (hended : (pool.loops (pool.tcpClients c.client).loop).place = .ended) :
    c.world.mayUse = false := by
  obtain ⟨c₀, hc₀, rfl⟩ := calls_setPool hc
  rw [clear_mayUse]
  rw [clear_client, h.steady.loopOf hstep hc₀] at hended
  rcases RpcConnectionPool.step_ended hstep hended with hended | ⟨heq, -⟩
  · exact h.unused k c₀ hc₀ hended
  · exact hends k c₀ hc₀ heq

theorem step_lasting {l : CallsLabel Message} {es : List (CallsEvent Message)} (h : Lasting s)
    (hok : s.LoopKept l) (hstep : s.step parse l = some (s', es)) : Lasting s' := by
  refine ⟨step_steady h.steady hstep, ?_, ?_⟩
  · have hsteps := step_cases hstep
    cases hsteps with
    | pool htask hpool =>
      refine RpcConnectionPool.step_kept h.pool (fun loop heq => ?_) hpool
      subst heq
      exact hok.1
    | acquired hplace hw hpool =>
      exact RpcConnectionPool.step_kept h.pool (fun loop heq => absurd heq (by simp)) hpool
    | cached | call => exact h.pool
  · intro k c hc hended
    have hsteps := step_cases hstep
    cases hsteps with
    | pool htask hpool =>
      refine h.unused_setPool hpool (fun j d hd heq => ?_) hc hended
      subst heq
      exact hok.2 j (h.steady.lt hd) d hd rfl
    | acquired hplace hw hpool =>
      rename_i a i client w pool es
      rw [calls_give] at hc
      split at hc
      · -- the call that the client is given to
        obtain rfl := Option.some.inj hc
        have halive := hok client (by simp [returns, hplace])
        have hmade : client < s.pool.made :=
          h.steady.placed.named a client (by simp [hplace, AcquirePlace.names])
        have hloop : (pool.tcpClients client).loop = s.loopOf client :=
          (RpcConnectionPool.step_settles hpool).loop client hmade
        change (pool.loops (pool.tcpClients client).loop).place = .ended at hended
        rw [hloop] at hended
        rcases RpcConnectionPool.step_ended hpool hended with hended | ⟨heq, -⟩
        · simp [RpcConnectionPool.alive, hended] at halive
        · exact absurd heq (by simp)
      · exact h.unused_setPool hpool (fun j d hd heq => absurd heq (by simp)) hc hended
    | cached hmade hw =>
      rw [calls_give] at hc
      split at hc
      · obtain rfl := Option.some.inj hc
        have halive : s.pool.alive _ = true := hok
        have hplace : (s.pool.loops (s.loopOf _)).place = .ended := hended
        simp [RpcConnectionPool.alive, hplace] at halive
      · exact h.unused k c hc hended
    | call hd hon hmay hcall =>
      rename_i j l d w es
      rw [calls_setCall] at hc
      split at hc
      · obtain rfl := Option.some.inj hc
        have hnot := h.unused j d hd hended
        rcases h.steady.parked_step hd (Or.inr hended) hon hmay hcall with rfl | ⟨input, rfl⟩
        · obtain ⟨rfl, -⟩ : d.world.dropRead = w ∧ [] = es := by
            simpa [step_dropRead] using hcall
          exact hnot
        · exact step_mayUse (h.steady.threads j d hd) hnot hcall
      · exact h.unused k c hc hended

theorem step_uses {l : CallsLabel Message} {es : List (CallsEvent Message)} (h : Lasting s)
    (hstep : s.step parse l = some (s', es)) {loop : Nat} {alive : Bool}
    (hmem : .pool (.uses loop alive) ∈ es) : alive = true := by
  have ofPool : ∀ {l : PoolLabel} {pool : RpcConnectionPool} {es₁ : List PoolEvent},
      s.pool.step l = some (pool, es₁) →
      (.pool (.uses loop alive) : CallsEvent Message) ∈ es₁.map .pool → alive = true := by
    intro l pool es₁ hpool hmem₁
    obtain ⟨e, he, heq⟩ := List.mem_map.mp hmem₁
    obtain rfl : e = .uses loop alive := by simpa using heq
    exact RpcConnectionPool.step_uses h.pool hpool he
  have hsteps := step_cases hstep
  cases hsteps with
  | pool htask hpool => exact ofPool hpool hmem
  | acquired hplace hw hpool => exact ofPool hpool hmem
  | cached => exact absurd hmem (by simp)
  | call hc hon hmay hcall =>
    rename_i k l c w es
    rcases List.mem_append.mp hmem with hmem | hmem
    · unfold uses at hmem
      split at hmem
      · rename_i huses
        obtain ⟨rfl, rfl⟩ : loop = s.loopOf c.client ∧
            alive = s.pool.alive (s.loopOf c.client) := by
          simpa [RpcConnectionPool.use] using hmem
        refine RpcConnectionPool.alive_of_not_ended fun hended => ?_
        have hnot := h.unused k c hc hended
        rcases h.steady.parked_step hc (Or.inr hended) hon hmay hcall with rfl | ⟨input, rfl⟩
        · exact absurd huses (by simp [World.usesLoop])
        · rw [usesLoop_of_not_mayUse hnot] at huses
          exact absurd huses (by simp)
      · exact absurd hmem (by simp)
    · obtain ⟨e, -, heq⟩ := List.mem_map.mp hmem
      exact absurd heq (by simp)

/-- When no loop ends that a call may still dereference, and no call is given a client whose
    loop has ended, every loop that is dereferenced is there. -/
theorem uses_alive (parse : Bytes → Message × Bool) (ioThreads connsPerAddr : Nat)
    {ls : List (CallsLabel Message)} {s : PoolCalls Message} {es : List (CallsEvent Message)}
    (hrun : run (step parse) (new ioThreads connsPerAddr) ls = some (s, es))
    (hkept : RunOk (step parse) LoopKept (new ioThreads connsPerAddr) ls)
    {loop : Nat} {alive : Bool} (hmem : .pool (.uses loop alive) ∈ es) : alive = true := by
  have key : Lasting s ∧ ∀ b, .pool (.uses loop b) ∈ es → b = true := by
    refine runOk_induction (fun s es => Lasting s ∧ ∀ b, .pool (.uses loop b) ∈ es → b = true)
      ?_ [] ⟨⟨steady_new _ _, RpcConnectionPool.kept_new _ _, ?_⟩, by simp⟩ hkept hrun
    · intro s tr l s' es ⟨hlasting, htr⟩ hok hstep
      refine ⟨step_lasting hlasting hok hstep, fun b hb => ?_⟩
      rcases List.mem_append.mp hb with hb | hb
      · exact htr b hb
      · exact step_uses hlasting hstep hb
    · exact fun k c hc => absurd hc (by simp [new])
  exact key.2 alive hmem

instance (s : PoolCalls Message) : DecidablePred s.LoopKept
  | .pool (.ends loop) => inferInstanceAs (Decidable ((∀ a < s.pool.begun, _ = false) ∧
      ∀ k < s.begun, ∀ c ∈ s.calls k, s.loopOf c.client = loop → c.world.mayUse = false))
  | .acquired a _ => inferInstanceAs (Decidable (∀ client ∈ s.returns a, _ = true))
  | .cached _ _ _ => inferInstanceAs (Decidable (_ = true))
  | .call _ _ => .isTrue trivial
  | .pool (.begins _ _) | .pool (.acquire _ _) | .pool (.discovers _ _) | .pool (.shutsDown _ _)
  | .pool .shutdown | .pool (.loops _) | .pool (.establishes _) | .pool (.refuses _)
  | .pool (.destroys _) | .pool (.leaves _) | .pool (.dies _) => .isTrue trivial

/-- An `acquire` of a pool with one loop comes to have its connection. -/
def connectsOne : List PoolLabel :=
  [.loops 0, .begins [97] none, .acquire 0 (.loads [0] []), .acquire 0 .none,
    .acquire 0 (.started true), .establishes 0, .acquire 0 .none]

/-- `CallMethodBlocking` over a channel with a pool. -/
def blocks : Invocation Unit where
  channel := { peerAddr := true, pool := true, registry := false, serviceName := [] }
  args := { method := true, controller := true, request := true, response := true }
  call := .callMethodBlocking 5
  controller := {}
  response := ()

/-- The call sends its request, times out locally and returns. -/
def timesOut : List (CallsLabel Unit) :=
  [.acquired 0 blocks, .call 0 (.thread caller (.generated [49])),
    .call 0 (.thread caller (.serialized true))] ++
  List.replicate 6 (.call 0 (.thread caller .none)) ++
  [.call 0 (.thread caller .timeout)] ++
  List.replicate 11 (.call 0 (.thread caller .none))

/-- The pool is shut down; it has these clients. -/
def shutsDownOne (clients : List Nat) : List PoolLabel :=
  [.shutsDown none clients] ++
    clients.flatMap (fun c => [.shutdown, .shutdown, .destroys c, .shutdown]) ++
    [.shutdown, .shutdown, .leaves 0, .ends 0]

/-- The connection goes to a blocking call, and the pool is shut down after it has returned. -/
def servesOne : List (CallsLabel Unit) :=
  connectsOne.map .pool ++ [.pool (.acquire 0 .none), .pool (.acquire 0 .none)] ++ timesOut ++
    (shutsDownOne [0]).map .pool

theorem uses_alive_servesOne :
    ∃ (s : PoolCalls Unit) (es : List (CallsEvent Unit)),
      run (step fun _ => ((), true)) (new 1 1) servesOne = some (s, es) ∧
        .pool (.uses 0 true) ∈ es ∧ ∀ alive, .pool (.uses 0 alive) ∈ es → alive = true := by
  have hrun : (run (step fun _ => ((), true)) (new 1 1) servesOne).map
      (fun r => decide (.pool (.uses 0 true) ∈ r.2)) = some true := by
    decide +kernel
  have hkept : RunOk (step fun _ => ((), true)) LoopKept (new 1 1) servesOne := by
    decide +kernel
  obtain ⟨⟨s, es⟩, hs, hmem⟩ := Option.map_eq_some_iff.mp hrun
  exact ⟨s, es, hs, of_decide_eq_true hmem, fun alive h => uses_alive _ 1 1 hs hkept h⟩

/-- The shutdown overtakes an `acquire` that has its connection: it counts the connection on a
    loop that has ended. -/
theorem uses_ended :
    ∃ (s : PoolCalls Unit) (es : List (CallsEvent Unit)),
      run (step fun _ => ((), true)) (new 1 1)
        ((connectsOne ++ shutsDownOne []).map .pool ++ [.pool (.acquire 0 .none)]) = some (s, es) ∧
          .pool (.uses 0 false) ∈ es := by
  have hrun : (run (step fun _ => ((), true)) (new 1 1)
      ((connectsOne ++ shutsDownOne []).map .pool ++ [.pool (.acquire 0 .none)])).map
        (fun r => decide (.pool (.uses 0 false) ∈ r.2)) = some true := by
    decide +kernel
  obtain ⟨⟨s, es⟩, hs, hmem⟩ := Option.map_eq_some_iff.mp hrun
  exact ⟨s, es, hs, of_decide_eq_true hmem⟩

end PoolCalls

end RocketRpc.Rpc
