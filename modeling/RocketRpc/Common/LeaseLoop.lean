import RocketRpc.Common.EtcdRegistry
import RocketRpc.Lib.Machine

/-
  The leases that are kept alive (`EtcdRegistry::leaseLoop`).

  `registerService` stores a lease under the key of the service, where it takes the place of an
  older one; `deregister` revokes a lease and leaves `m_leases` as it is. So a round of the loop
  has the newest lease of every key, whether that was passed to `deregister` or not
  (`heartbeats_iff`).
-/

namespace RocketRpc.Registry

open RocketRpc.Tcp Machine

def leaseKeepalive : Bytes := text "/v3/lease/keepalive"

def leaseRevoke : Bytes := text "/v3/lease/revoke"

def leaseRequest (leaseId : Int) : Bytes :=
  text "\x7b\"ID\":" ++ (text (toString leaseId) ++ text "\x7d")

variable {σ : Type}

def heartbeat (e : Etcd σ) (leaseId : Int) (s : σ) : σ :=
  (e.httpPost leaseKeepalive (leaseRequest leaseId) s).2

def deregister (e : Etcd σ) (_name _addr : Bytes) (leaseId : Int) (s : σ) : σ :=
  (e.httpPost leaseRevoke (leaseRequest leaseId) s).2

/-- A round of `leaseLoop` over the entries of `m_leases`: the leases that heartbeats are sent
    for. -/
def leaseRound (e : Etcd σ) : List LeaseEntry → σ → List Int × σ
  | [], s => ([], s)
  | entry :: entries, s =>
    let rest := leaseRound e entries (heartbeat e entry.leaseId s)
    (entry.leaseId :: rest.1, rest.2)

/-- The entries, in some order of the keys. -/
def Enumerates (keys : List Bytes) (r : EtcdRegistry) : Prop :=
  keys.Nodup ∧ ∀ key, key ∈ keys ↔ (r.leases key).isSome = true

/-! ## Histories -/

structure LeaseWorld (σ : Type) where
  registry : EtcdRegistry := {}
  etcd : σ

inductive LeaseCall (σ : Type)
  | register (name addr : Bytes) (ttlSeconds : Int)
  | deregister (name addr : Bytes) (leaseId : Int)
  /-- What etcd does besides, such as for the rounds of the loop. -/
  | aside (etcd : σ)

inductive LeaseEvent
  | granted (key : Bytes) (leaseId : Int)
  | deregistered (leaseId : Int)
  deriving DecidableEq, Repr

/-- There is no step where `registerService` fails. -/
def leaseStep (e : Etcd σ) (w : LeaseWorld σ) :
    LeaseCall σ → Option (LeaseWorld σ × List LeaseEvent)
  | .register name addr ttlSeconds =>
    match registerService e name addr ttlSeconds w.registry w.etcd with
    | some (leaseId, r, s) =>
      if leaseId = -1 then none
      else some (⟨r, s⟩, [.granted (serviceKey name addr) leaseId])
    | none => none
  | .deregister name addr leaseId =>
    some ({ w with etcd := deregister e name addr leaseId w.etcd }, [.deregistered leaseId])
  | .aside s => some ({ w with etcd := s }, [])

/-- A lease that was granted and not yet passed to `deregister`. -/
def Outstanding (es : List LeaseEvent) (leaseId : Int) : Prop :=
  ∃ key, Since es (.granted key leaseId) (· = .deregistered leaseId)

def NewestOf (es : List LeaseEvent) (key : Bytes) (leaseId : Int) : Prop :=
  Since es (.granted key leaseId) fun e => ∃ later, e = .granted key later

/-- The last lease that was granted for its key. -/
def Newest (es : List LeaseEvent) (leaseId : Int) : Prop :=
  ∃ key, NewestOf es key leaseId

/-! ## What is stored -/

section

variable {e : Etcd σ} {w w' : LeaseWorld σ} {es : List LeaseEvent}

/-- What a step does to `m_leases`: a registration stores its lease, and nothing else does. -/
theorem leaseStep_cases {call : LeaseCall σ} (h : leaseStep e w call = some (w', es)) :
    (∃ key leaseId ttlSeconds, es = [.granted key leaseId] ∧
      w'.registry.leases =
        Function.update w.registry.leases key (some ⟨leaseId, ttlSeconds⟩)) ∨
      (∃ leaseId, es = [.deregistered leaseId] ∧ w'.registry = w.registry) ∨
      es = [] ∧ w'.registry = w.registry := by
  cases call with
  | register name addr ttlSeconds =>
    rw [leaseStep] at h
    split at h
    · rename_i leaseId r s hcall
      split at h
      · exact absurd h (by simp)
      · rename_i hleaseId
        obtain ⟨rfl, rfl⟩ := Prod.mk.inj (Option.some.inj h)
        exact Or.inl ⟨serviceKey name addr, leaseId, ttlSeconds, rfl,
          (registerService_ok hcall hleaseId).2.2⟩
    · exact absurd h (by simp)
  | deregister name addr leaseId =>
    obtain ⟨rfl, rfl⟩ := Prod.mk.inj (Option.some.inj h)
    exact Or.inr (Or.inl ⟨leaseId, rfl, rfl⟩)
  | aside s =>
    obtain ⟨rfl, rfl⟩ := Prod.mk.inj (Option.some.inj h)
    exact Or.inr (Or.inr ⟨rfl, rfl⟩)

/-- The entry of a key has its newest lease. -/
def StoresNewest (r : EtcdRegistry) (es : List LeaseEvent) : Prop :=
  ∀ key leaseId, (∃ entry ∈ r.leases key, entry.leaseId = leaseId) ↔ NewestOf es key leaseId

theorem storesNewest_step {call : LeaseCall σ} {tr : List LeaseEvent}
    (hinv : StoresNewest w.registry tr) (h : leaseStep e w call = some (w', es)) :
    StoresNewest w'.registry (tr ++ es) := by
  rcases leaseStep_cases h with
    ⟨key, leaseId, ttlSeconds, rfl, hleases⟩ | ⟨leaseId, rfl, hw⟩ | ⟨rfl, hw⟩
  · intro key' leaseId'
    rw [NewestOf, since_concat, hleases]
    by_cases hkey : key' = key
    · rw [hkey]
      simp
    · have hother : key ≠ key' := fun heq => hkey heq.symm
      rw [Function.update_of_ne hkey, hinv key' leaseId', NewestOf]
      simp [hother]
  · intro key' leaseId'
    rw [NewestOf, since_concat, hw, hinv key' leaseId', NewestOf]
    simp
  · rw [List.append_nil, hw]
    exact hinv

/-- The entries have the newest leases after any calls. -/
theorem storesNewest_run {calls : List (LeaseCall σ)} {s : σ}
    (h : run (leaseStep e) { etcd := s } calls = some (w, es)) :
    StoresNewest w.registry es := by
  have hstart : StoresNewest ({ etcd := s } : LeaseWorld σ).registry [] := by
    intro key leaseId
    exact iff_of_false (by simp) not_since_nil
  exact run_induction (fun w es => StoresNewest w.registry es)
    (fun w tr call w' es hinv hs => storesNewest_step hinv hs) [] hstart h

end

/-! ## Rounds -/

section

variable {e : Etcd σ} {keys : List Bytes}

theorem leaseRound_eq (entries : List LeaseEntry) (s : σ) :
    (leaseRound e entries s).1 = entries.map LeaseEntry.leaseId := by
  induction entries generalizing s with
  | nil => rfl
  | cons entry entries ih => rw [leaseRound, List.map_cons, ih]

/-- A round has what is stored. -/
theorem mem_leaseRound {r : EtcdRegistry} (hkeys : Enumerates keys r) (s : σ) (leaseId : Int) :
    leaseId ∈ (leaseRound e (keys.filterMap r.leases) s).1 ↔
      ∃ key, ∃ entry ∈ r.leases key, entry.leaseId = leaseId := by
  rw [leaseRound_eq, List.mem_map]
  constructor
  · rintro ⟨entry, hmem, heq⟩
    obtain ⟨key, -, hkey⟩ := List.mem_filterMap.mp hmem
    exact ⟨key, entry, hkey, heq⟩
  · rintro ⟨key, entry, hkey, heq⟩
    have hlisted : key ∈ keys := (hkeys.2 key).mpr (Option.isSome_of_mem hkey)
    exact ⟨entry, List.mem_filterMap.mpr ⟨key, hlisted, hkey⟩, heq⟩

end

/-- A round sends heartbeats for the leases that are granted and not yet deregistered if and only
    if these are the newest ones of their keys. -/
theorem heartbeats_iff (e : Etcd σ) (s : σ) (calls : List (LeaseCall σ)) (w : LeaseWorld σ)
    (es : List LeaseEvent) (hrun : run (leaseStep e) { etcd := s } calls = some (w, es))
    (keys : List Bytes) (hkeys : Enumerates keys w.registry) :
    (∀ leaseId, leaseId ∈ (leaseRound e (keys.filterMap w.registry.leases) w.etcd).1 ↔
        Outstanding es leaseId) ↔
      ∀ leaseId, Newest es leaseId ↔ Outstanding es leaseId := by
  refine forall_congr' fun leaseId => ?_
  have hstored := storesNewest_run hrun
  rw [mem_leaseRound hkeys]
  simp only [hstored _ leaseId, Newest]

/-- A server that grants one lease again and again. -/
def oneLease : Etcd Unit where
  httpPost path _ s :=
    if path = leaseGrant then (text "\x7b\"ID\":\"7\"\x7d", s) else (text "\x7b\x7d", s)

def registerCall : LeaseCall Unit := .register (text "a") (text "10.0.0.1:80") 10

def firstKey : Bytes := serviceKey (text "a") (text "10.0.0.1:80")

theorem registerCall_run : ∃ w, run (leaseStep oneLease) { etcd := () } [registerCall] =
    some (w, [.granted firstKey 7]) ∧ Enumerates [firstKey] w.registry := by
  have hcall : (registerService oneLease (text "a") (text "10.0.0.1:80") 10 {} ()).map
      (fun c => c.1) = some 7 := by decide +kernel
  obtain ⟨⟨leaseId, r, s⟩, hs, rfl⟩ := Option.map_eq_some_iff.mp hcall
  have hstep : leaseStep oneLease { etcd := () } registerCall =
      some (⟨r, s⟩, [.granted firstKey 7]) := by
    rw [registerCall, leaseStep, hs]
    rfl
  refine ⟨⟨r, s⟩, run_cons_eq_some.mpr ⟨_, _, [], hstep, run_nil _, rfl⟩, by simp, fun key => ?_⟩
  rw [(registerService_ok hs (by decide)).2.2, ← firstKey]
  by_cases hkey : key = firstKey
  · simp [hkey]
  · simp [hkey]

theorem heartbeats_iff_one : ∃ w, run (leaseStep oneLease) { etcd := () } [registerCall] =
    some (w, [.granted firstKey 7]) ∧
      ∀ leaseId, leaseId ∈ (leaseRound oneLease ([firstKey].filterMap w.registry.leases) w.etcd).1 ↔
        Outstanding [.granted firstKey 7] leaseId := by
  obtain ⟨w, hrun, hkeys⟩ := registerCall_run
  refine ⟨w, hrun, (heartbeats_iff oneLease () [registerCall] w _ hrun [firstKey] hkeys).mpr
    fun leaseId => exists_congr fun key => ?_⟩
  rw [NewestOf, ← List.nil_append [_], since_concat, since_concat]
  simp [not_since_nil]

/-- A lease that was deregistered is kept alive. -/
theorem heartbeat_after_deregister :
    ¬ ∀ (σ : Type) (e : Etcd σ) (s : σ) (calls : List (LeaseCall σ)) (w : LeaseWorld σ)
      (es : List LeaseEvent), run (leaseStep e) { etcd := s } calls = some (w, es) →
        ∀ keys, Enumerates keys w.registry → ∀ leaseId,
          leaseId ∈ (leaseRound e (keys.filterMap w.registry.leases) w.etcd).1 ↔
            Outstanding es leaseId := by
  intro hclaim
  obtain ⟨w, hrun, hkeys⟩ := registerCall_run
  have hstored := storesNewest_run hrun firstKey 7
  have hnewest : NewestOf [.granted firstKey 7] firstKey 7 := ⟨[], [], rfl, by simp⟩
  have hall : run (leaseStep oneLease) { etcd := () }
      ([registerCall] ++ [.deregister (text "a") (text "10.0.0.1:80") 7]) =
        some (_, [.granted firstKey 7] ++ [.deregistered 7]) :=
    run_append.mpr ⟨w, _, _, hrun, run_cons_eq_some.mpr ⟨_, _, [], rfl, run_nil _, rfl⟩, rfl⟩
  obtain ⟨key, hsince⟩ := (hclaim Unit oneLease () _ _ _ hall [firstKey] hkeys 7).mp
    ((mem_leaseRound hkeys _ 7).mpr ⟨firstKey, hstored.mpr hnewest⟩)
  rcases since_concat.mp hsince with heq | ⟨-, hno⟩
  · exact absurd heq (by simp)
  · exact hno rfl

end RocketRpc.Registry
