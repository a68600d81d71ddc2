import RocketRpc.Rpc.PoolSteps

/-
  The clients that `acquire` returns.

  A call keeps the clients it has seen connected. What it is about to return is one of these
  (`Sighted`), unless it takes an entry of a vector that other calls have filled while it
  connected: there the pool does not look at the connection. So in the runs where such an
  entry was connected at some moment since the call began, every returned client was
  (`returns_live`); in others it need not be (`returns_dead`).
-/

namespace RocketRpc.Rpc

open Machine RpcConnectionPool

/-- The client that an `acquire` returns, once it has it. -/
def AcquirePlace.holds : AcquirePlace → Option Nat
  | .connected client _ | .publish client _ => some client
  | .stop _ (.ret client) | .stopping _ (.ret client) | .ret client => client
  | _ => none

/-- `connectSync` has just connected the client. -/
def AcquirePlace.connects (client : Nat) : AcquirePlace → Bool
  | .connected c _ => c = client
  | _ => false

theorem holds_stopping (client : Nat) (next : AfterStop) :
    (AcquirePlace.stopping client next).holds = (AcquirePlace.stop client next).holds := by
  cases next <;> rfl

theorem holds_afterStop (client : Nat) (next : AfterStop) :
    (AfterStop.place next).holds = (AcquirePlace.stop client next).holds := by
  cases next <;> rfl

namespace RpcConnectionPool

variable {s s' : RpcConnectionPool}

/-- The entry that an `acquire` takes when the slots are full. -/
def slot (s : RpcConnectionPool) (addr : Tcp.Bytes) : Option Nat :=
  (s.clients addr)[s.rrCounters addr % (s.clients addr).length]?

/-- If call `a` finds the slots full now, it has seen the entry at the index connected. -/
def SlotSeenAt (s : RpcConnectionPool) (a : Nat) : AcquirePlace → Prop
  | .publish _ _ => s.isShutdown = false →
      s.connsPerAddr ≤ (s.clients (s.acquires a).addr).length →
      ∀ c ∈ (s.slot (s.acquires a).addr).toList, c ∈ (s.acquires a).seen
  | _ => True

/-- A call that finds the slots full has seen the entry at the index connected. -/
def SlotSeen (s : RpcConnectionPool) : PoolLabel → Prop
  | .acquire a _ => s.SlotSeenAt a (s.acquires a).place
  | _ => True

instance (s : RpcConnectionPool) (a : Nat) : DecidablePred (s.SlotSeenAt a)
  | .publish _ _ => inferInstanceAs (Decidable (_ → _ → _))
  | .lookup | .stopStale _ _ | .connect _ | .connecting _ _ | .connected _ _ | .drop _ _
  | .stop _ _ | .stopping _ _ | .ret _ | .over => .isTrue trivial

instance (s : RpcConnectionPool) : DecidablePred s.SlotSeen
  | .acquire a _ => inferInstanceAs (Decidable (s.SlotSeenAt a (s.acquires a).place))
  | .begins _ _ | .discovers _ _ | .shutsDown _ _ | .shutdown | .loops _ | .establishes _
  | .refuses _ | .destroys _ | .leaves _ | .ends _ | .dies _ => .isTrue trivial

/-- What the calls have seen. -/
structure Sighted (s : RpcConnectionPool) : Prop where
  seen : ∀ a, (s.acquires a).place ≠ .over → ∀ c, s.isConnected c = true →
    c ∈ (s.acquires a).seen
  holds : ∀ a c, (s.acquires a).place.holds = some c → c ∈ (s.acquires a).seen
  unmade : ∀ c, s.made ≤ c → s.isConnected c = false ∧ (s.tcpClients c).connecting = false

theorem sighted_new (ioThreads connsPerAddr : Nat) : Sighted (new ioThreads connsPerAddr) := by
  refine ⟨fun a ha => absurd rfl ha, fun a c hc => absurd hc ?_, fun _ _ => ⟨rfl, rfl⟩⟩
  simp [new, AcquirePlace.holds]

/-- No connection comes up, and no client is made. -/
structure NoneNew (s s' : RpcConnectionPool) : Prop where
  made : s'.made = s.made
  connected : ∀ c, s'.isConnected c = true → s.isConnected c = true
  connecting : ∀ c, (s'.tcpClients c).connecting = true → (s.tcpClients c).connecting = true

theorem NoneNew.of_eq (hmade : s'.made = s.made) (h : s'.tcpClients = s.tcpClients) :
    NoneNew s s' := by
  refine ⟨hmade, fun c => ?_, fun c => ?_⟩
  · rw [isConnected, isConnected, h]
    exact id
  · rw [h]
    exact id

theorem NoneNew.setClient {client : Nat} {c : PoolClient}
    (hconnected : c.connection = true → c.connected = true → s.isConnected client = true)
    (hconnecting : c.connecting = true → (s.tcpClients client).connecting = true) :
    NoneNew s (s.setClient client c) := by
  have hc : ∀ i, (s.setClient client c).tcpClients i =
      if i = client then c else s.tcpClients i := fun i => Function.update_apply _ _ _ _
  refine ⟨rfl, fun i => ?_, fun i => ?_⟩
  · rw [isConnected, hc]
    split
    · rename_i hi
      rw [hi, Bool.and_eq_true]
      exact fun h => hconnected h.1 h.2
    · exact id
  · rw [hc]
    split
    · rename_i hi
      rw [hi]
      exact hconnecting
    · exact id

theorem NoneNew.unmade (h : NoneNew s s') (hs : Sighted s) (c : Nat) (hc : s'.made ≤ c) :
    s'.isConnected c = false ∧ (s'.tcpClients c).connecting = false := by
  obtain ⟨h₁, h₂⟩ := hs.unmade c (h.made ▸ hc)
  constructor
  · by_contra hne
    exact absurd (h.connected c (by simpa using hne)) (by simp [h₁])
  · by_contra hne
    exact absurd (h.connecting c (by simpa using hne)) (by simp [h₂])

/-- No call moves and none sees less. -/
theorem Sighted.still (h : Sighted s) (hnew : NoneNew s s') (hacquires : s'.acquires = s.acquires) :
    Sighted s' := by
  refine ⟨?_, ?_, hnew.unmade h⟩
  · rw [hacquires]
    exact fun a ha c hc => h.seen a ha c (hnew.connected c hc)
  · rw [hacquires]
    exact h.holds

/-- One call moves on. -/
theorem Sighted.goTo {s₁ : RpcConnectionPool} {a : Nat} {place : AcquirePlace} (h : Sighted s)
    (hnew : NoneNew s s₁) (hacquires : s₁.acquires = s.acquires)
    (ha : (s.acquires a).place ≠ .over)
    (hplace : ∀ c, place.holds = some c → c ∈ (s.acquires a).seen) :
    Sighted (s₁.goTo a place) := by
  have hone := h.still hnew hacquires
  refine ⟨fun b hb c hc => ?_, fun b c hc => ?_, hone.unmade⟩
  · rw [seen_goTo]
    refine hone.seen b ?_ c hc
    by_cases hba : b = a
    · rw [hba, hacquires]
      exact ha
    · rw [acquires_goTo_of_ne s₁ hba] at hb
      exact hb
  · rw [seen_goTo]
    by_cases hba : b = a
    · subst hba
      rw [place_goTo] at hc
      rw [hacquires]
      exact hplace c hc
    · rw [acquires_goTo_of_ne s₁ hba] at hc
      exact hone.holds b c hc

/-- A call makes a client. -/
theorem Sighted.make {a loop : Nat} {c : PoolClient} (h : Sighted s) (hc : c.connected = false)
    (ha : (s.acquires a).place ≠ .over) :
    Sighted ({ s.setClient s.made c with made := s.made + 1 }.goTo a
      (.connecting s.made loop)) := by
  have hclients : ∀ i, ({ s.setClient s.made c with made := s.made + 1 } :
      RpcConnectionPool).tcpClients i = if i = s.made then c else s.tcpClients i :=
    fun i => Function.update_apply _ _ _ _
  have hconnected : ∀ i, ({ s.setClient s.made c with made := s.made + 1 } :
      RpcConnectionPool).isConnected i = true → s.isConnected i = true := by
    intro i
    rw [isConnected, hclients]
    split
    · simp [hc]
    · exact id
  refine ⟨fun b hb i hi => ?_, fun b i hi => ?_, fun i hi => ?_⟩
  · rw [seen_goTo]
    refine h.seen b ?_ i (hconnected i hi)
    by_cases hba : b = a
    · rw [hba]
      exact ha
    · rw [acquires_goTo_of_ne _ hba] at hb
      exact hb
  · rw [seen_goTo]
    by_cases hba : b = a
    · subst hba
      rw [place_goTo] at hi
      exact absurd hi (by simp [AcquirePlace.holds])
    · rw [acquires_goTo_of_ne _ hba] at hi
      exact h.holds b i hi
  · have hne : s.made + 1 ≤ i := hi
    have hold := h.unmade i (by omega)
    have hi' : (({ s.setClient s.made c with made := s.made + 1 } :
        RpcConnectionPool).goTo a (.connecting s.made loop)).tcpClients i = s.tcpClients i :=
      (hclients i).trans (if_neg (by omega))
    rw [isConnected, hi']
    exact hold

/-- `connectSync` has connected the client of a call. -/
theorem Sighted.connects {a client loop : Nat} (h : Sighted s)
    (ha : (s.acquires a).place ≠ .over) :
    Sighted ((s.seeFor a client).goTo a (.connected client loop)) := by
  have hseen : ∀ b, ((s.seeFor a client).acquires b).seen =
      if b = a then client :: (s.acquires a).seen else (s.acquires b).seen := by
    intro b
    rw [acquires_seeFor]
    split <;> rfl
  have hplace : ∀ b, ((s.seeFor a client).acquires b).place = (s.acquires b).place := by
    intro b
    rw [acquires_seeFor]
    split
    · rename_i hb
      rw [hb]
    · rfl
  have hmore : ∀ b c, c ∈ (s.acquires b).seen → c ∈ ((s.seeFor a client).acquires b).seen := by
    intro b c hc
    rw [hseen]
    split
    · rename_i hb
      exact List.mem_cons_of_mem _ (hb ▸ hc)
    · exact hc
  refine ⟨fun b hb c hc => ?_, fun b c hc => ?_, h.unmade⟩
  · rw [seen_goTo]
    refine hmore b c (h.seen b ?_ c hc)
    by_cases hba : b = a
    · rw [hba]
      exact ha
    · rw [acquires_goTo_of_ne _ hba, hplace] at hb
      exact hb
  · rw [seen_goTo]
    by_cases hba : b = a
    · subst hba
      rw [place_goTo] at hc
      obtain rfl : client = c := Option.some.inj hc
      rw [hseen, if_pos rfl]
      exact List.mem_cons_self
    · rw [acquires_goTo_of_ne _ hba, hplace] at hc
      exact hmore b c (h.holds b c hc)

theorem stopped_noneNew {thread : Option Nat} {client : Nat} {wait : Bool} {es : List PoolEvent}
    (h : Stopped s thread client s' wait es) : NoneNew s s' ∧ s'.acquires = s.acquires := by
  cases h with
  | again => exact ⟨.of_eq rfl rfl, rfl⟩
  | bare _ _ hconnection hconnecting =>
    refine ⟨.setClient ?_ (by simp [hconnecting]), rfl⟩
    exact fun hc => absurd hc (by simp [hconnection])
  | waits => exact ⟨.setClient (by simp) id, rfl⟩

theorem acts_sighted {a : Nat} {es : List PoolEvent} (h : Sighted s)
    (hslot : ∀ client loop, (s.acquires a).place = .publish client loop → s.isShutdown = false →
      s.connsPerAddr ≤ (s.clients (s.acquires a).addr).length →
      ∀ c, s.slot (s.acquires a).addr = some c → c ∈ (s.acquires a).seen)
    (hacts : Acts s a (s.acquires a).place s' es) : Sighted s' := by
  generalize hat : (s.acquires a).place = place at hacts
  have hover : place ≠ .over → (s.acquires a).place ≠ .over := by
    rw [hat]
    exact id
  have same : NoneNew s s := .of_eq rfl rfl
  have kept : ∀ c, place.holds = some c → c ∈ (s.acquires a).seen := by
    rw [← hat]
    exact h.holds a
  cases hacts with
  | lookup hlookup =>
    have ha := hover (by simp)
    cases hlookup with
    | shut => exact h.goTo same rfl ha (by simp [AcquirePlace.holds])
    | found hmem hconnected =>
      refine h.goTo (.of_eq rfl rfl) rfl ha ?_
      rintro c ⟨rfl⟩
      exact h.seen a ha _ hconnected
    | evicts =>
      obtain ⟨hsame, -⟩ := uncount_spec s (s.clients (s.acquires a).addr)
      refine h.goTo (.of_eq ?_ ?_) ?_ ha (by simp [AcquirePlace.holds])
      · exact hsame.made
      · exact hsame.tcpClients
      · exact hsame.acquires
    | room => exact h.goTo same rfl ha (by simp [AcquirePlace.holds])
  | goes hgoes =>
    cases hgoes with
    | stale | choice | noLoop | fails =>
      exact h.goTo same rfl (hover (by simp)) (by simp [AcquirePlace.holds])
  | connect hconnect =>
    rename_i loop ok
    have hnew : ∃ c : PoolClient, c.connected = false ∧
        s' = { s.setClient s.made c with made := s.made + 1 }.goTo a (.connecting s.made loop) := by
      obtain ⟨rfl, -⟩ := Prod.mk.inj hconnect
      cases ok with
      | true => exact ⟨_, rfl, rfl⟩
      | false => exact ⟨_, rfl, rfl⟩
    obtain ⟨c, hc, rfl⟩ := hnew
    exact h.make hc (hover (by simp))
  | connects hcalled => exact h.connects (hover (by simp))
  | counts => exact h.goTo (.of_eq rfl rfl) rfl (hover (by simp)) kept
  | publish hpublish =>
    have ha := hover (by simp)
    cases hpublish with
    | shut => exact h.goTo same rfl ha (by simp [AcquirePlace.holds])
    | added => exact h.goTo (.of_eq rfl rfl) rfl ha kept
    | full hopen hfull =>
      exact h.goTo (.of_eq rfl rfl) rfl ha (hslot _ _ hat hopen hfull)
  | drops => exact h.goTo (.of_eq rfl rfl) rfl (hover (by simp)) (by simp [AcquirePlace.holds])
  | stops hstop =>
    rename_i client next s₁ wait
    obtain ⟨hnew, hacquires⟩ := stopped_noneNew hstop
    refine h.goTo hnew hacquires (hover (by simp)) fun c hc => kept c ?_
    cases wait with
    | true => exact (holds_stopping client next).symm.trans hc
    | false => exact (holds_afterStop client next).symm.trans hc
  | stopped =>
    rename_i client next _
    refine h.goTo same rfl (hover (by simp)) fun c hc => kept c ?_
    rw [holds_stopping, ← holds_afterStop]
    exact hc
  | ret => exact h.goTo same rfl (hover (by simp)) (by simp [AcquirePlace.holds])

theorem handles_noneNew {client : Nat} {c : PoolClient} (h : Handles s client c) :
    NoneNew s (s.setClient client c) := by
  cases h with
  | refuses hconnecting =>
    exact .setClient (fun hc hcon => by rw [isConnected, hc, hcon]; rfl) (by simp)
  | destroys => exact .setClient (fun hc hcon => by rw [isConnected, hc, hcon]; rfl) id
  | dies => exact .setClient (by simp) id

theorem shuts_noneNew {es : List PoolEvent} {place : ShutdownPlace} (h : Shuts s place s' es) :
    NoneNew s s' ∧ s'.acquires = s.acquires := by
  cases h with
  | unregisters | joins | stopped | join | joined | ended | clears => exact ⟨.of_eq rfl rfl, rfl⟩
  | stops hstop =>
    obtain ⟨hnew, hacquires⟩ := stopped_noneNew hstop
    exact ⟨⟨hnew.made, hnew.connected, hnew.connecting⟩, hacquires⟩

/-- A connection comes up. -/
theorem Sighted.establishes {s₁ : RpcConnectionPool} {client : Nat} (h : Sighted s)
    (hconnecting : (s.tcpClients client).connecting = true)
    (hs₁ : s₁ = s.setClient client { s.tcpClients client with
      connecting := false, called := some false, connected := true }) :
    Sighted (if s₁.isConnected client then s₁.see client else s₁) := by
  have hclients : ∀ i, s₁.tcpClients i = if i = client then { s.tcpClients client with
      connecting := false, called := some false, connected := true } else s.tcpClients i := by
    rw [hs₁]
    exact fun i => tcpClients_setClient s client i _
  have hother : ∀ i, i ≠ client → s₁.isConnected i = s.isConnected i := by
    intro i hi
    rw [isConnected, hclients, if_neg hi]
    rfl
  have hacquires : s₁.acquires = s.acquires := by
    rw [hs₁]
    rfl
  have hmade : s₁.made = s.made := by
    rw [hs₁]
    rfl
  have hunmade : ∀ i, s₁.made ≤ i →
      s₁.isConnected i = false ∧ (s₁.tcpClients i).connecting = false := by
    intro i hi
    obtain ⟨h₁, h₂⟩ := h.unmade i (hmade ▸ hi)
    have hne : i ≠ client := by
      rintro rfl
      exact absurd hconnecting (by simp [h₂])
    rw [hother i hne, hclients, if_neg hne]
    exact ⟨h₁, h₂⟩
  split
  · refine ⟨fun a ha i hi => ?_, fun a i hi => ?_, hunmade⟩
    · rw [acquires_see] at ha ⊢
      split at ha
      · rename_i hover
        exact absurd hover ha
      · rename_i hover
        rw [if_neg hover]
        rw [hacquires] at hover ⊢
        by_cases hic : i = client
        · rw [hic]
          exact List.mem_cons_self
        · exact List.mem_cons_of_mem _ (h.seen a hover i ((hother i hic).symm.trans hi))
    · rw [acquires_see, hacquires] at hi ⊢
      split at hi
      · rename_i hover
        exact absurd hi (by simp [hover, AcquirePlace.holds])
      · rename_i hover
        rw [if_neg hover]
        exact List.mem_cons_of_mem _ (h.holds a i hi)
  · rename_i hc
    refine ⟨?_, ?_, hunmade⟩
    · rw [hacquires]
      intro a ha i hi
      have hic : i ≠ client := by
        rintro rfl
        exact hc hi
      exact h.seen a ha i ((hother i hic).symm.trans hi)
    · rw [hacquires]
      exact h.holds

theorem step_sighted {l : PoolLabel} {es : List PoolEvent} (h : Sighted s) (hslot : s.SlotSeen l)
    (hstep : s.step l = some (s', es)) : Sighted s' := by
  have hsteps := step_cases hstep
  cases hsteps with
  | begins =>
    refine ⟨fun a ha c hc => ?_, fun a c hc => ?_, h.unmade⟩
    · rw [acquires_beginAcquire] at ha ⊢
      split
      · refine List.mem_filter.mpr ⟨List.mem_range.mpr ?_, hc⟩
        by_contra hle
        exact absurd ((h.unmade c (by omega)).1.symm.trans hc) (by simp)
      · rename_i hne
        rw [if_neg hne] at ha
        exact h.seen a ha c hc
    · rw [acquires_beginAcquire] at hc ⊢
      split at hc
      · exact absurd hc (by simp [AcquirePlace.holds])
      · rename_i hne
        rw [if_neg hne]
        exact h.holds a c hc
  | acquire hacts =>
    refine acts_sighted h ?_ hacts
    intro client loop hat hopen hfull c hc
    simp only [SlotSeen, SlotSeenAt, hat] at hslot
    exact hslot hopen hfull c (by simp [hc])
  | discovers | shutsDown | loop => exact h.still (.of_eq rfl rfl) rfl
  | shutdown hshuts =>
    obtain ⟨hnew, hacquires⟩ := shuts_noneNew hshuts
    exact h.still hnew hacquires
  | establishes hconnecting _ hs₁ => exact h.establishes hconnecting hs₁
  | handles hhandles => exact h.still (handles_noneNew hhandles) rfl

/-! ## Moments -/

/-- The client is connected while call `a` is under way, or is the one that `connectSync` has
    just connected in it. -/
def Live (s : RpcConnectionPool) (a client : Nat) : Prop :=
  (s.acquires a).place ≠ .over ∧
    (s.isConnected client = true ∨ (s.acquires a).place.connects client = true)

instance (s : RpcConnectionPool) (a client : Nat) : Decidable (s.Live a client) :=
  inferInstanceAs (Decidable (_ ∧ (_ ∨ _)))

/-- A call comes to have seen a client only when it is live. -/
theorem step_seen {l : PoolLabel} {es : List PoolEvent} (hstep : s.step l = some (s', es))
    {a c : Nat} (hc : c ∈ (s'.acquires a).seen) : c ∈ (s.acquires a).seen ∨ Live s' a c := by
  have same : s'.acquires = s.acquires → c ∈ (s.acquires a).seen ∨ Live s' a c := by
    intro heq
    rw [heq] at hc
    exact Or.inl hc
  have went : ∀ {s₁ : RpcConnectionPool} {b : Nat} {place : AcquirePlace},
      s₁.acquires = s.acquires → c ∈ ((s₁.goTo b place).acquires a).seen →
      c ∈ (s.acquires a).seen ∨ Live s' a c := by
    intro s₁ b place heq hmem
    rw [seen_goTo, heq] at hmem
    exact Or.inl hmem
  have hsteps := step_cases hstep
  cases hsteps with
  | begins =>
    rw [acquires_beginAcquire] at hc
    split at hc
    · rename_i ha
      refine Or.inr ⟨?_, Or.inl (List.mem_filter.mp hc).2⟩
      rw [acquires_beginAcquire, if_pos ha]
      simp
    · exact Or.inl hc
  | acquire hacts =>
    rename_i b input
    generalize (s.acquires b).place = place at hacts
    cases hacts with
    | lookup hlookup =>
      cases hlookup with
      | shut | found | room => exact went rfl hc
      | evicts =>
        exact went (uncount_spec s (s.clients (s.acquires b).addr)).1.acquires hc
    | goes | counts | drops | stopped | ret => exact went rfl hc
    | connect hconnect =>
      obtain ⟨rfl, -⟩ := Prod.mk.inj hconnect
      exact went rfl hc
    | connects =>
      rw [seen_goTo, acquires_seeFor] at hc
      split at hc
      · rename_i hab
        subst hab
        rcases List.mem_cons.mp hc with rfl | hc
        · refine Or.inr ⟨?_, Or.inr ?_⟩
          · simp
          · simp [AcquirePlace.connects]
        · exact Or.inl hc
      · exact Or.inl hc
    | publish hpublish =>
      cases hpublish with
      | shut | added | full => exact went rfl hc
    | stops hstop => exact went (stopped_noneNew hstop).2 hc
  | discovers | shutsDown | loop | handles => exact same rfl
  | shutdown hshuts => exact same (shuts_noneNew hshuts).2
  | establishes _ _ hs₁ =>
    rename_i client _ _ s₁
    have hacquires : s₁.acquires = s.acquires := by
      rw [hs₁]
      rfl
    by_cases hcon : s₁.isConnected client = true
    · rw [if_pos hcon] at hc ⊢
      rw [acquires_see, hacquires] at hc
      split at hc
      · exact Or.inl hc
      · rename_i hover
        rcases List.mem_cons.mp hc with rfl | hc
        · refine Or.inr ⟨?_, Or.inl hcon⟩
          rw [acquires_see, hacquires, if_neg hover]
          exact hover
        · exact Or.inl hc
    · rw [if_neg hcon, hacquires] at hc
      exact Or.inl hc

/-- At some moment of the run the client was live for the call. -/
def WasLive (s₀ : RpcConnectionPool) (ls : List PoolLabel) (a client : Nat) : Prop :=
  ∃ ls₁ ls₂ s es, ls = ls₁ ++ ls₂ ∧ run step s₀ ls₁ = some (s, es) ∧ Live s a client

theorem WasLive.append {s₀ : RpcConnectionPool} {ls : List PoolLabel} {a client : Nat}
    (h : WasLive s₀ ls a client) (ms : List PoolLabel) : WasLive s₀ (ls ++ ms) a client := by
  obtain ⟨ls₁, ls₂, s, es, rfl, hrun, hlive⟩ := h
  exact ⟨ls₁, ls₂ ++ ms, s, es, List.append_assoc _ _ _, hrun, hlive⟩

theorem step_returned {l : PoolLabel} {es : List PoolEvent} (hstep : s.step l = some (s', es))
    {a : Nat} {client : Option Nat} (hmem : .returned a client ∈ es) :
    (s.acquires a).place = .ret client := by
  have hstop : ∀ {thread c s₁ wait es₁}, Stopped s thread c s₁ wait es₁ →
      .returned a client ∉ es₁ := by
    intro thread c s₁ wait es₁ h
    cases h with
    | again => simp
    | bare _ _ _ _ _ _ hes => rcases hes with rfl | ⟨rfl, -⟩ <;> simp [use]
    | waits => simp [use]
  have hsteps := step_cases hstep
  cases hsteps with
  | acquire hacts =>
    rename_i b input
    generalize hat : (s.acquires b).place = place at hacts
    cases hacts with
    | lookup hlookup =>
      cases hlookup with
      | shut | found => exact absurd hmem (by simp)
      | evicts | room => exact absurd hmem (by simp [use])
    | publish hpublish =>
      cases hpublish with
      | shut | added => exact absurd hmem (by simp)
      | full => exact absurd hmem (by simp [use])
    | connect hconnect =>
      rename_i loop ok
      obtain ⟨-, rfl⟩ := Prod.mk.inj hconnect
      cases ok <;> exact absurd hmem (by simp [use])
    | stops h => exact absurd hmem (hstop h)
    | goes | connects | stopped => exact absurd hmem (by simp)
    | counts | drops => exact absurd hmem (by simp [use])
    | ret =>
      obtain ⟨rfl, rfl⟩ : a = b ∧ client = _ := by simpa using hmem
      exact hat
  | shutdown hshuts =>
    generalize s.shutdown = place at hshuts
    cases hshuts with
    | unregisters => exact absurd hmem (by simp [use])
    | stops h => exact absurd hmem (hstop h)
    | _ => exact absurd hmem (by simp)
  | _ => exact absurd hmem (by simp)

/-- When every call that finds the slots full has seen the entry at the index connected, each
    client that a call returns was connected at some moment during the call. -/
theorem returns_live (ioThreads connsPerAddr : Nat) {ls : List PoolLabel}
    {s : RpcConnectionPool} {es : List PoolEvent}
    (hrun : run step (new ioThreads connsPerAddr) ls = some (s, es))
    (hslot : RunOk step SlotSeen (new ioThreads connsPerAddr) ls) (a client : Nat)
    (hreturned : .returned a (some client) ∈ es) :
    WasLive (new ioThreads connsPerAddr) ls a client := by
  have key : Sighted s ∧
      (∀ a c, c ∈ (s.acquires a).seen → WasLive (new ioThreads connsPerAddr) ls a c) ∧
      ∀ a c, .returned a (some c) ∈ es → WasLive (new ioThreads connsPerAddr) ls a c := by
    refine runOk_history (fun ls s es => Sighted s ∧
      (∀ a c, c ∈ (s.acquires a).seen → WasLive (new ioThreads connsPerAddr) ls a c) ∧
      ∀ a c, .returned a (some c) ∈ es → WasLive (new ioThreads connsPerAddr) ls a c)
      ?_ ⟨sighted_new _ _, by simp [new], by simp⟩ hslot hrun
    intro ls u tr l u' es' hu ⟨hsighted, hseen, hret⟩ hok hstep
    have hrun' : run step (new ioThreads connsPerAddr) (ls ++ [l]) = some (u', tr ++ es') :=
      run_append.mpr ⟨u, tr, es', hu, run_cons_eq_some.mpr ⟨u', es', [], hstep, rfl, by simp⟩, rfl⟩
    refine ⟨step_sighted hsighted hok hstep, fun a c hc => ?_, fun a c hmem => ?_⟩
    · rcases step_seen hstep hc with hc | hlive
      · exact (hseen a c hc).append [l]
      · exact ⟨ls ++ [l], [], u', tr ++ es', by simp, hrun', hlive⟩
    · rcases List.mem_append.mp hmem with hmem | hmem
      · exact (hret a c hmem).append [l]
      · have hplace := step_returned hstep hmem
        exact (hseen a c (hsighted.holds a c (by rw [hplace]; rfl))).append [l]
  exact key.2.2 a client hreturned

/-- Call `a` goes through `connect` with a new client, on a pool of one loop. -/
def connectsTo (a client : Nat) : List PoolLabel :=
  [.acquire a .none, .acquire a (.started true), .establishes client, .acquire a .none,
    .acquire a .none, .acquire a .none]

/-- Two calls find one slot of two taken and connect; the first of them takes the other one,
    and the second one the entry at the index. -/
def lastSlot (between : List PoolLabel) : List PoolLabel :=
  [.loops 0, .begins [97] none, .acquire 0 (.loads [0] [])] ++ connectsTo 0 0 ++
    [.acquire 0 .none] ++ between ++
    [.begins [97] none, .begins [97] none, .acquire 1 (.loads [1] []), .acquire 2 (.loads [1] [])] ++
    connectsTo 1 1 ++ [.acquire 1 .none] ++ connectsTo 2 2 ++
    [.acquire 2 .none, .destroys 2, .acquire 2 .none, .acquire 2 .none]

theorem returns_live_last_slot :
    ∃ (s : RpcConnectionPool) (es : List PoolEvent),
      run step (new 1 2) (lastSlot []) = some (s, es) ∧ .returned 2 (some 0) ∈ es ∧
        WasLive (new 1 2) (lastSlot []) 2 0 := by
  have hrun : (run step (new 1 2) (lastSlot [])).map
      (fun r => decide (.returned 2 (some 0) ∈ r.2)) = some true := by
    decide +kernel
  have hslot : RunOk step SlotSeen (new 1 2) (lastSlot []) := by
    decide +kernel
  obtain ⟨⟨s, es⟩, hs, hmem⟩ := Option.map_eq_some_iff.mp hrun
  have hreturned := of_decide_eq_true hmem
  exact ⟨s, es, hs, hreturned, returns_live 1 2 hs hslot 2 0 hreturned⟩

/-- The connection at the index has died before the call began. -/
theorem returns_dead :
    ∃ (s : RpcConnectionPool) (es : List PoolEvent),
      run step (new 1 2) (lastSlot [.dies 0]) = some (s, es) ∧ .returned 2 (some 0) ∈ es ∧
        ¬ WasLive (new 1 2) (lastSlot [.dies 0]) 2 0 := by
  have hrun : (run step (new 1 2) (lastSlot [.dies 0])).map
      (fun r => decide (.returned 2 (some 0) ∈ r.2)) = some true := by
    decide +kernel
  have hnever : ∀ n < (lastSlot [.dies 0]).length + 1,
      (run step (new 1 2) ((lastSlot [.dies 0]).take n)).all (fun r => !decide (Live r.1 2 0)) =
        true := by
    decide +kernel
  obtain ⟨⟨s, es⟩, hs, hmem⟩ := Option.map_eq_some_iff.mp hrun
  refine ⟨s, es, hs, of_decide_eq_true hmem, ?_⟩
  rintro ⟨ls₁, ls₂, v, es₁, heq, hv, hlive⟩
  have hlen : ls₁.length < (lastSlot [.dies 0]).length + 1 := by
    rw [heq, List.length_append]
    omega
  have hnot := hnever ls₁.length hlen
  rw [heq, List.take_left', hv] at hnot
  · simp [hlive] at hnot
  · rfl

end RpcConnectionPool

end RocketRpc.Rpc
