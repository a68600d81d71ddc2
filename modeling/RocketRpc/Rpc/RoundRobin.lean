import Mathlib.Data.List.Rotate
import RocketRpc.Rpc.LiveClients
import RocketRpc.Rpc.PoolAccounting

/-
  The turns of the connections of an address (`RpcConnectionPool::acquire`).

  The scan of a full vector starts at the stored index, passes over the dead clients and leaves
  the index behind the client that it takes. So consecutive calls go once around the vector, and
  take the connected clients in the order in which they stand behind the index
  (`takes_in_turn`).
-/

namespace RocketRpc.Rpc

open RocketRpc.Tcp Machine

namespace RpcConnectionPool

/-! ## The scan -/

section

variable {connected : Nat → Bool} {vec : List Nat}

theorem rotate_succ {i x : Nat} {rest : List Nat} (h : vec.rotate i = x :: rest) :
    vec.rotate ((i + 1) % vec.length) = rest ++ [x] := by
  rw [List.rotate_mod, ← List.rotate_rotate, h, List.rotate_cons_succ, List.rotate_zero]

theorem getElem?_of_rotate {i x : Nat} {rest : List Nat} (hi : i < vec.length)
    (h : vec.rotate i = x :: rest) : vec[i]? = some x := by
  rw [← List.head?_rotate hi, h, List.head?_cons]

/-- The scan passes over what is dead and takes the first client that is connected. -/
theorem scan_finds {dead rest : List Nat} {i n client : Nat} (hi : i < vec.length)
    (hrotate : vec.rotate i = dead ++ client :: rest) (hdead : ∀ c ∈ dead, connected c = false)
    (hclient : connected client = true) (hn : dead.length < n) :
    scan connected vec n i = (some client, (i + dead.length + 1) % vec.length) ∧
      vec.rotate ((i + dead.length + 1) % vec.length) = rest ++ (dead ++ [client]) := by
  induction dead generalizing i n rest with
  | nil =>
    obtain ⟨n, rfl⟩ := Nat.exists_eq_succ_of_ne_zero (Nat.ne_of_gt hn)
    rw [List.nil_append] at hrotate
    refine ⟨?_, rotate_succ hrotate⟩
    simp only [scan, getElem?_of_rotate hi hrotate, hclient, if_true, List.length_nil, Nat.add_zero]
  | cons c dead ih =>
    obtain ⟨n, rfl⟩ := Nat.exists_eq_succ_of_ne_zero (Nat.ne_of_gt (Nat.zero_lt_of_lt hn))
    rw [List.cons_append] at hrotate
    have hnext := rotate_succ hrotate
    rw [List.append_assoc, List.cons_append] at hnext
    have hlt : (i + 1) % vec.length < vec.length := Nat.mod_lt _ (Nat.zero_lt_of_lt hi)
    obtain ⟨hscan, hrest⟩ := ih hlt hnext (fun d hd => hdead d (List.mem_cons_of_mem c hd))
      (Nat.lt_of_succ_lt_succ hn)
    have hindex : ((i + 1) % vec.length + dead.length + 1) % vec.length =
        (i + (c :: dead).length + 1) % vec.length := by
      rw [Nat.add_assoc, Nat.mod_add_mod, List.length_cons]
      congr 1
      omega
    rw [hindex] at hscan hrest
    refine ⟨?_, by simpa using hrest⟩
    simp only [scan, getElem?_of_rotate hi hrotate, hdead c List.mem_cons_self, hscan,
      Bool.false_eq_true, if_false]

end

/-! ## Calls -/

/-- A call of `acquire`. -/
structure AcquireCall where
  before : RpcConnectionPool
  after : RpcConnectionPool
  events : List PoolEvent

/-- From a thread, and with what `pickLoop` loads. -/
def AcquireCall.Runs (c : AcquireCall) (addr : Bytes) : Prop :=
  ∃ thread counts alternatives, run step c.before [.begins addr thread,
    .acquire c.before.begun (.loads counts alternatives), .acquire c.before.begun .none] =
      some (c.after, c.events)

/-- What the calls for an address depend on is the same. -/
structure Keeps (addr : Bytes) (s s' : RpcConnectionPool) : Prop where
  connsPerAddr : s'.connsPerAddr = s.connsPerAddr
  isShutdown : s'.isShutdown = s.isShutdown
  clients : s'.clients addr = s.clients addr
  rrCounters : s'.rrCounters addr = s.rrCounters addr
  connected : ∀ client ∈ s.clients addr, s'.isConnected client = s.isConnected client

/-- The calls for an address one after another, where other things go on between them. -/
def Consecutive (addr : Bytes) : RpcConnectionPool → List AcquireCall → Prop
  | _, [] => True
  | s, c :: calls => Keeps addr s c.before ∧ c.Runs addr ∧ Consecutive addr c.after calls

/-- The call returns the client, and changes no client or vector or loop. -/
structure AcquireCall.Takes (c : AcquireCall) (client : Nat) : Prop where
  events : c.events = [.returned c.before.begun (some client)]
  clients : c.after.clients = c.before.clients
  tcpClients : c.after.tcpClients = c.before.tcpClients
  made : c.after.made = c.before.made
  loops : c.after.loops = c.before.loops

/-- The first part of a call finds the client. -/
theorem lookup_finds {s : RpcConnectionPool} {addr : Bytes} {a client : Nat}
    {dead rest : List Nat} (haddr : (s.acquires a).addr = addr) (hopen : s.isShutdown = false)
    (hfull : s.connsPerAddr ≤ (s.clients addr).length)
    (hrotate : (s.clients addr).rotate (s.rrCounters addr % (s.clients addr).length) =
      dead ++ client :: rest)
    (hdead : ∀ c ∈ dead, s.isConnected c = false) (hclient : s.isConnected client = true)
    (counts alternatives : List Nat) :
    ∃ idx, (s.clients addr).rotate idx = rest ++ (dead ++ [client]) ∧
      s.lookup a counts alternatives =
        ({ s with
            rrCounters := Function.update s.rrCounters addr
              (idx % (s.clients addr).length) }.goTo a (.ret (some client)), []) := by
  have hlength := congrArg List.length hrotate
  rw [List.length_rotate, List.length_append, List.length_cons] at hlength
  have hpos : 0 < (s.clients addr).length := by omega
  have hdeadlt : dead.length < (s.clients addr).length := by omega
  obtain ⟨hscan, hnext⟩ := scan_finds (Nat.mod_lt _ hpos) hrotate hdead hclient hdeadlt
  refine ⟨_, hnext, ?_⟩
  simp only [lookup, haddr, hopen, Bool.false_eq_true, if_false, if_pos hfull, hscan, Nat.mod_mod]

/-- A call takes the first client behind the index that is connected, and leaves the index
    behind it. -/
theorem call_takes {c : AcquireCall} {addr : Bytes} {client : Nat} {dead rest : List Nat}
    (hruns : c.Runs addr) (hopen : c.before.isShutdown = false)
    (hfull : c.before.connsPerAddr ≤ (c.before.clients addr).length)
    (hrotate : (c.before.clients addr).rotate
      (c.before.rrCounters addr % (c.before.clients addr).length) = dead ++ client :: rest)
    (hdead : ∀ d ∈ dead, c.before.isConnected d = false)
    (hclient : c.before.isConnected client = true) :
    c.Takes client ∧ c.after.isShutdown = false ∧
      c.after.connsPerAddr = c.before.connsPerAddr ∧
      (c.after.clients addr).rotate (c.after.rrCounters addr % (c.after.clients addr).length) =
        rest ++ (dead ++ [client]) := by
  obtain ⟨s, t, es⟩ := c
  obtain ⟨thread, counts, alternatives, hrun⟩ := hruns
  dsimp only at hrun hopen hfull hrotate hdead hclient
  obtain ⟨s₁, es₁, rest₁, hbegins, hrun₁, rfl⟩ := run_cons_eq_some.mp hrun
  obtain ⟨s₂, es₂, rest₂, hlookup, hrun₂, rfl⟩ := run_cons_eq_some.mp hrun₁
  obtain ⟨s₃, es₃, rest₃, hret, hrun₃, rfl⟩ := run_cons_eq_some.mp hrun₂
  obtain ⟨rfl, rfl⟩ : s₃ = t ∧ [] = rest₃ := by simpa using hrun₃
  obtain ⟨rfl, rfl⟩ : s.beginAcquire addr thread = s₁ ∧ [] = es₁ := by
    rw [step] at hbegins
    split at hbegins
    · simpa using hbegins
    · exact absurd hbegins (by simp)
  have hcall : (s.beginAcquire addr thread).acquires s.begun =
      { addr, thread, place := .lookup, seen := (List.range s.made).filter s.isConnected } := by
    rw [acquires_beginAcquire, if_pos rfl]
  have haddr : ((s.beginAcquire addr thread).acquires s.begun).addr = addr := by rw [hcall]
  obtain ⟨idx, hnext, hfound⟩ := @lookup_finds (s.beginAcquire addr thread) addr s.begun client
    dead rest haddr hopen hfull hrotate hdead hclient counts alternatives
  rw [step, hcall, exec, hfound] at hlookup
  obtain ⟨rfl, rfl⟩ := Prod.mk.inj (Option.some.inj hlookup)
  rw [step, place_goTo, exec] at hret
  obtain ⟨rfl, rfl⟩ := Prod.mk.inj (Option.some.inj hret)
  refine ⟨⟨rfl, rfl, rfl, rfl, rfl⟩, hopen, rfl, ?_⟩
  have hindex : (Function.update s.rrCounters addr (idx % (s.clients addr).length)) addr =
      idx % (s.clients addr).length := Function.update_self _ _ _
  show (s.clients addr).rotate ((Function.update s.rrCounters addr
    (idx % (s.clients addr).length)) addr % (s.clients addr).length) = _
  rw [hindex, Nat.mod_mod, List.rotate_mod]
  exact hnext

/-- The connected clients of an address, in the order in which they stand behind the index. -/
def turns (s : RpcConnectionPool) (addr : Bytes) : List Nat :=
  ((s.clients addr).rotate (s.rrCounters addr % (s.clients addr).length)).filter s.isConnected

theorem turns_perm (s : RpcConnectionPool) (addr : Bytes) :
    (s.turns addr).Perm ((s.clients addr).filter s.isConnected) :=
  (List.rotate_perm _ _).filter _

theorem Keeps.turns {addr : Bytes} {s s' : RpcConnectionPool} (h : Keeps addr s s') :
    s'.turns addr = s.turns addr := by
  rw [RpcConnectionPool.turns, RpcConnectionPool.turns, h.clients, h.rrCounters]
  exact List.filter_congr fun c hc => h.connected c (List.mem_rotate.mp hc)

/-- Consecutive calls take the clients in turn. -/
theorem takes_in_turn {addr : Bytes} {s : RpcConnectionPool} {calls : List AcquireCall}
    (hopen : s.isShutdown = false) (hfull : s.connsPerAddr ≤ (s.clients addr).length)
    (hcalls : Consecutive addr s calls) (hlength : calls.length ≤ (s.turns addr).length) :
    List.Forall₂ AcquireCall.Takes calls ((s.turns addr).take calls.length) := by
  induction calls generalizing s with
  | nil => exact .nil
  | cons c calls ih =>
    obtain ⟨hkeeps, hruns, hrest⟩ := hcalls
    have hturns := hkeeps.turns
    rw [List.length_cons] at hlength ⊢
    obtain ⟨client, others, hfirst⟩ : ∃ client others, s.turns addr = client :: others :=
      List.exists_cons_of_length_pos (by omega)
    obtain ⟨dead, rest, hrotate, hdead, hclient, hothers⟩ :=
      List.filter_eq_cons_iff.mp (hturns.trans hfirst)
    have hdead' : ∀ d ∈ dead, c.before.isConnected d = false :=
      fun d hd => Bool.not_eq_true _ ▸ hdead d hd
    obtain ⟨htakes, hopen', hconns, hafter⟩ := call_takes hruns (hkeeps.isShutdown.trans hopen)
      (hkeeps.connsPerAddr ▸ hkeeps.clients ▸ hfull) hrotate hdead' hclient
    have hconnected : c.after.isConnected = c.before.isConnected := by
      funext d
      rw [isConnected, isConnected, htakes.tcpClients]
    -- the one that is taken goes to the end
    have hnext : c.after.turns addr = others ++ [client] := by
      rw [RpcConnectionPool.turns, hafter, hconnected, List.filter_append, List.filter_append,
        hothers, List.filter_eq_nil_iff.mpr hdead]
      simp [hclient]
    have hfull' : c.after.connsPerAddr ≤ (c.after.clients addr).length := by
      rw [hconns, htakes.clients, hkeeps.connsPerAddr, hkeeps.clients]
      exact hfull
    rw [hfirst, List.length_cons] at hlength
    have hrun := ih hopen' hfull' hrest (by rw [hnext, List.length_append]; omega)
    rw [hnext, List.take_append_of_le_length (by omega)] at hrun
    rw [hfirst, List.take_succ_cons]
    exact .cons htakes hrun

theorem nodup_of_run {ioThreads connsPerAddr : Nat} {ls : List PoolLabel}
    {s : RpcConnectionPool} {es : List PoolEvent}
    (hrun : run step (new ioThreads connsPerAddr) ls = some (s, es)) (addr : Bytes) :
    (s.clients addr).Nodup :=
  (run_invariant Balanced (fun _ _ _ _ => step_balanced) (balanced_new ioThreads connsPerAddr)
    hrun).nodup addr

/-- On a pool that is not shut down, as many consecutive calls for an address whose vector is
    full as it has connected clients take each of these once. -/
theorem round_robin (addr : Bytes) (s : RpcConnectionPool) (calls : List AcquireCall)
    (hopen : s.isShutdown = false) (hfull : s.connsPerAddr ≤ (s.clients addr).length)
    (hcalls : Consecutive addr s calls)
    (hlength : calls.length = ((s.clients addr).filter s.isConnected).length) :
    ∃ clients : List Nat, clients.Perm ((s.clients addr).filter s.isConnected) ∧
      List.Forall₂ AcquireCall.Takes calls clients ∧
      ∀ ioThreads connsPerAddr ls es,
        run step (new ioThreads connsPerAddr) ls = some (s, es) → clients.Nodup := by
  have hperm := s.turns_perm addr
  have hcount : calls.length = (s.turns addr).length := hlength.trans hperm.length_eq.symm
  have htakes := takes_in_turn hopen hfull hcalls (Nat.le_of_eq hcount)
  rw [hcount, List.take_length] at htakes
  refine ⟨s.turns addr, hperm, htakes, fun ioThreads connsPerAddr ls es hrun => ?_⟩
  exact hperm.nodup_iff.mpr ((nodup_of_run hrun addr).filter _)

/-- Call `a` takes what the vector has. -/
def takesSlot (a : Nat) : List PoolLabel :=
  [.begins [97] none, .acquire a (.loads [] []), .acquire a .none]

/-- Two calls fill the slots of an address, and the first connection dies. -/
def oneDead : List PoolLabel :=
  [.loops 0, .begins [97] none, .acquire 0 (.loads [0] [])] ++ connectsTo 0 0 ++
    [.acquire 0 .none, .begins [97] none, .acquire 1 (.loads [1] [])] ++ connectsTo 1 1 ++
    [.acquire 1 .none, .dies 0]

theorem round_robin_one_dead :
    ∃ (s t : RpcConnectionPool) (es es' : List PoolEvent),
      run step (new 1 2) oneDead = some (s, es) ∧ run step s (takesSlot 2) = some (t, es') ∧
        ∃ clients : List Nat, clients.Perm [1] ∧
          List.Forall₂ AcquireCall.Takes [⟨s, t, es'⟩] clients := by
  have hrun : (run step (new 1 2) oneDead).map (fun r => decide (r.1.begun = 2 ∧
      r.1.isShutdown = false ∧ r.1.connsPerAddr ≤ (r.1.clients [97]).length ∧
      (r.1.clients [97]).filter r.1.isConnected = [1] ∧
      (run step r.1 (takesSlot 2)).isSome = true)) = some true := by
    decide +kernel
  obtain ⟨⟨s, es⟩, hs, hfacts⟩ := Option.map_eq_some_iff.mp hrun
  obtain ⟨hbegun, hopen, hfull, hconnected, hcall⟩ := of_decide_eq_true hfacts
  obtain ⟨⟨t, es'⟩, ht⟩ := Option.isSome_iff_exists.mp hcall
  have hruns : AcquireCall.Runs ⟨s, t, es'⟩ [97] := ⟨none, [], [], by rw [hbegun]; exact ht⟩
  have hkeeps : Keeps [97] s s := ⟨rfl, rfl, rfl, rfl, fun _ _ => rfl⟩
  obtain ⟨clients, hperm, htakes, -⟩ := round_robin [97] s [⟨s, t, es'⟩] hopen hfull
    ⟨hkeeps, hruns, trivial⟩ (by rw [hconnected]; rfl)
  exact ⟨s, t, es, es', hs, ht, clients, hconnected ▸ hperm, htakes⟩

/-- On a pool that is shut down a call gets nothing, while the vector is still full. -/
theorem round_robin_shut_down :
    ¬ ∀ (ioThreads connsPerAddr : Nat) (ls : List PoolLabel) (s : RpcConnectionPool)
      (es : List PoolEvent), run step (new ioThreads connsPerAddr) ls = some (s, es) →
        ∀ (addr : Bytes) (calls : List AcquireCall),
          s.connsPerAddr ≤ (s.clients addr).length → Consecutive addr s calls →
            calls.length = ((s.clients addr).filter s.isConnected).length →
              ∃ clients : List Nat, clients.Perm ((s.clients addr).filter s.isConnected) ∧
                List.Forall₂ AcquireCall.Takes calls clients := by
  intro hclaim
  have hrun : (run step (new 1 2) (oneDead ++ [.shutsDown none [0, 1]])).map (fun r =>
      decide (r.1.begun = 2 ∧ r.1.connsPerAddr ≤ (r.1.clients [97]).length ∧
        (r.1.clients [97]).filter r.1.isConnected = [1] ∧
        (run step r.1 (takesSlot 2)).map (fun c => c.2) = some [.returned 2 none])) =
          some true := by
    decide +kernel
  obtain ⟨⟨s, es⟩, hs, hfacts⟩ := Option.map_eq_some_iff.mp hrun
  obtain ⟨hbegun, hfull, hconnected, hcall⟩ := of_decide_eq_true hfacts
  obtain ⟨⟨t, es'⟩, ht, rfl⟩ := Option.map_eq_some_iff.mp hcall
  have hruns : AcquireCall.Runs ⟨s, t, [.returned 2 none]⟩ [97] :=
    ⟨none, [], [], by rw [hbegun]; exact ht⟩
  have hkeeps : Keeps [97] s s := ⟨rfl, rfl, rfl, rfl, fun _ _ => rfl⟩
  obtain ⟨clients, -, htakes⟩ := hclaim 1 2 _ s es hs [97] [⟨s, t, [.returned 2 none]⟩] hfull
    ⟨hkeeps, hruns, trivial⟩ (by rw [hconnected]; rfl)
  cases htakes with
  | cons htake => exact absurd htake.events (by simp)

end RpcConnectionPool

end RocketRpc.Rpc
