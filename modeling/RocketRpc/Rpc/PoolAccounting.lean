import RocketRpc.Rpc.PoolSteps
import RocketRpc.Lib.Tally

/-
  The books of the connection pool.

  The counter of a loop is changed at six places, in the steps of several threads. `Balanced`
  says what it is the number of: the clients on the loop that are in a vector and that the
  shutdown has not unregistered, and the calls that have counted a client and neither published
  nor dropped it. Each place that changes the counter moves a client or a call in or out of one
  of these; that is a lemma for each place, and `pool_accounting` is the result for all runs.
-/

namespace RocketRpc.Rpc

open Machine RpcConnectionPool

/-- The client a call has made and not yet published, dropped or given up, and its loop. -/
def AcquirePlace.own : AcquirePlace → Option (Nat × Nat)
  | .connecting client loop | .connected client loop | .publish client loop
  | .drop client loop => some (client, loop)
  | _ => none

/-- The loop on which a call has counted a client that it has neither published nor dropped. -/
def AcquirePlace.counted : AcquirePlace → Option Nat
  | .publish _ loop | .drop _ loop => some loop
  | _ => none

/-- The clients that the shutdown has still to unregister, once it has begun. -/
def ShutdownPlace.left : ShutdownPlace → Option (List Nat)
  | .idle => none
  | .unregister clients | .stop _ clients | .stopping _ clients => some clients
  | .join _ | .joining _ | .clear | .done => some []

namespace RpcConnectionPool

variable {s s' s₁ : RpcConnectionPool}

/-- The client is in a vector, and the shutdown has not unregistered it. -/
def registered (s : RpcConnectionPool) (client : Nat) : Bool :=
  s.pooled client && s.shutdown.left.all fun clients => clients.contains client

def registeredOn (s : RpcConnectionPool) (loop : Nat) : Nat :=
  Tally.among s.made fun c => s.registered c && (s.tcpClients c).loop == loop

def countedOn (s : RpcConnectionPool) (loop : Nat) : Nat :=
  Tally.among s.begun fun a => (s.acquires a).place.counted == some loop

structure Balanced (s : RpcConnectionPool) : Prop where
  length : ∀ addr, (s.clients addr).length ≤ s.connsPerAddr
  nodup : ∀ addr, (s.clients addr).Nodup
  filed : ∀ addr, ∀ c ∈ s.clients addr, c < s.made ∧ (s.tcpClients c).addr = addr
  own : ∀ a c loop, (s.acquires a).place.own = some (c, loop) →
    c < s.made ∧ (s.tcpClients c).addr = (s.acquires a).addr ∧ (s.tcpClients c).loop = loop ∧
      c ∉ s.clients (s.acquires a).addr
  sole : ∀ a b c l m, (s.acquires a).place.own = some (c, l) →
    (s.acquires b).place.own = some (c, m) → a = b
  unbegun : ∀ a, s.begun ≤ a → (s.acquires a).place = .over
  /-- The vectors do not change once the shutdown has copied them. -/
  left : ∀ clients, s.shutdown.left = some clients →
    s.isShutdown = true ∧ clients.Nodup ∧ ∀ c ∈ clients, s.pooled c = true
  balance : ∀ loop,
    (s.loops loop).connectionCount = (s.registeredOn loop : Int) + (s.countedOn loop : Int)

theorem balanced_new (ioThreads connsPerAddr : Nat) :
    Balanced (new ioThreads connsPerAddr) where
  length _ := Nat.zero_le _
  nodup _ := List.nodup_nil
  filed _ c hc := absurd hc (by simp [new])
  own a c loop h := absurd h (by simp [new, AcquirePlace.own])
  sole a b c l m h := absurd h (by simp [new, AcquirePlace.own])
  unbegun _ _ := rfl
  left clients h := absurd h (by simp [new, ShutdownPlace.left])
  balance _ := rfl

/-! ## Steps that leave the vectors alone -/

/-- What the books are about is the same. -/
structure SameBook (s s' : RpcConnectionPool) : Prop where
  connsPerAddr : s'.connsPerAddr = s.connsPerAddr
  isShutdown : s'.isShutdown = s.isShutdown
  clients : s'.clients = s.clients
  made : s'.made = s.made
  begun : s'.begun = s.begun
  left : s'.shutdown.left = s.shutdown.left
  addr : ∀ c, (s'.tcpClients c).addr = (s.tcpClients c).addr
  loop : ∀ c, (s'.tcpClients c).loop = (s.tcpClients c).loop

theorem SameBook.refl (s : RpcConnectionPool) : SameBook s s :=
  ⟨rfl, rfl, rfl, rfl, rfl, rfl, fun _ => rfl, fun _ => rfl⟩

theorem SameBook.of_rr (s : RpcConnectionPool) (rr : Tcp.Bytes → Nat) :
    SameBook s { s with rrCounters := rr } :=
  ⟨rfl, rfl, rfl, rfl, rfl, rfl, fun _ => rfl, fun _ => rfl⟩

theorem SameBook.of_count (s : RpcConnectionPool) (loop : Nat) (n : Int) (rr : Tcp.Bytes → Nat) :
    SameBook s { s.count loop n with rrCounters := rr } :=
  ⟨rfl, rfl, rfl, rfl, rfl, rfl, fun _ => rfl, fun _ => rfl⟩

theorem SameBook.setClient {client : Nat} {c : PoolClient}
    (haddr : c.addr = (s.tcpClients client).addr) (hloop : c.loop = (s.tcpClients client).loop) :
    SameBook s (s.setClient client c) := by
  refine ⟨rfl, rfl, rfl, rfl, rfl, rfl, fun i => ?_, fun i => ?_⟩
  · rw [tcpClients_setClient]
    split
    · rename_i hi
      rw [hi, haddr]
    · rfl
  · rw [tcpClients_setClient]
    split
    · rename_i hi
      rw [hi, hloop]
    · rfl

namespace SameBook

variable (h : SameBook s s')

include h

theorem pooled (c : Nat) : s'.pooled c = s.pooled c := by
  rw [RpcConnectionPool.pooled, RpcConnectionPool.pooled, h.clients, h.addr]

theorem registered (c : Nat) : s'.registered c = s.registered c := by
  rw [RpcConnectionPool.registered, RpcConnectionPool.registered, h.pooled, h.left]

theorem registeredOn (loop : Nat) : s'.registeredOn loop = s.registeredOn loop := by
  rw [RpcConnectionPool.registeredOn, RpcConnectionPool.registeredOn, h.made]
  exact Tally.among_congr fun c _ => by rw [h.registered, h.loop]

end SameBook

theorem Balanced.lt_begun {a : Nat} (h : Balanced s) (ha : (s.acquires a).place ≠ .over) :
    a < s.begun := by
  by_contra hle
  exact ha (h.unbegun a (by omega))

/-- The shutdown copies the vectors only when it closes the pool. -/
theorem Balanced.left_eq_none (h : Balanced s) (hopen : s.isShutdown = false) :
    s.shutdown.left = none := by
  cases hl : s.shutdown.left with
  | none => rfl
  | some clients => exact absurd (h.left clients hl).1 (by simp [hopen])

/-- What is counted on a loop when a call moves. -/
theorem countedOn_goTo {a : Nat} (place : AcquirePlace) (hacquires : s₁.acquires = s.acquires)
    (hbegun : s₁.begun = s.begun) (ha : a < s.begun) (loop : Nat) :
    (s₁.goTo a place).countedOn loop +
        (if (s.acquires a).place.counted = some loop then 1 else 0) =
      s.countedOn loop + if place.counted = some loop then 1 else 0 := by
  have hother : ∀ b, b ≠ a → ((s₁.goTo a place).acquires b).place = (s.acquires b).place := by
    intro b hb
    rw [acquires_goTo_of_ne s₁ hb, hacquires]
  have hupdate := Tally.among_update ha
    (p := fun b => (s.acquires b).place.counted == some loop)
    (q := fun b => ((s₁.goTo a place).acquires b).place.counted == some loop)
    fun b _ hb => by rw [hother b hb]
  rw [countedOn, show (s₁.goTo a place).begun = s.begun from hbegun]
  simpa [countedOn] using hupdate

/-- A call moves on, and the counters move by what it counts. -/
theorem Balanced.goTo {a : Nat} {place : AcquirePlace} (h : Balanced s) (hsame : SameBook s s₁)
    (hacquires : s₁.acquires = s.acquires) (ha : (s.acquires a).place ≠ .over)
    (hown : place.own = none ∨ place.own = (s.acquires a).place.own)
    (hcount : ∀ loop, (s₁.loops loop).connectionCount +
        (if (s.acquires a).place.counted = some loop then 1 else 0) =
      (s.loops loop).connectionCount + if place.counted = some loop then 1 else 0) :
    Balanced (s₁.goTo a place) := by
  have hbegun := h.lt_begun ha
  have hother : ∀ b, b ≠ a → ((s₁.goTo a place).acquires b).place = (s.acquires b).place := by
    intro b hb
    rw [acquires_goTo_of_ne s₁ hb, hacquires]
  have haddr : ∀ b, ((s₁.goTo a place).acquires b).addr = (s.acquires b).addr := by
    intro b
    rw [addr_goTo, hacquires]
  -- nobody has a client that it did not have before
  have howns : ∀ b x, ((s₁.goTo a place).acquires b).place.own = some x →
      (s.acquires b).place.own = some x := by
    intro b x hx
    by_cases hb : b = a
    · subst hb
      rw [place_goTo] at hx
      rcases hown with hnone | heq
      · exact absurd (hnone.symm.trans hx) (by simp)
      · exact heq.symm.trans hx
    · rw [hother b hb] at hx
      exact hx
  have hclients : (s₁.goTo a place).clients = s.clients := hsame.clients
  refine ⟨?_, ?_, ?_, ?_, ?_, ?_, ?_, ?_⟩
  · intro addr
    rw [hclients]
    exact le_of_le_of_eq (h.length addr) hsame.connsPerAddr.symm
  · intro addr
    rw [hclients]
    exact h.nodup addr
  · intro addr c hc
    rw [hclients] at hc
    obtain ⟨hlt, hc⟩ := h.filed addr c hc
    exact ⟨lt_of_lt_of_eq hlt hsame.made.symm, (hsame.addr c).trans hc⟩
  · intro b c loop hb
    obtain ⟨hlt, hc, hloop, hnot⟩ := h.own b c loop (howns b _ hb)
    rw [haddr, hclients]
    exact ⟨lt_of_lt_of_eq hlt hsame.made.symm, (hsame.addr c).trans hc,
      (hsame.loop c).trans hloop, hnot⟩
  · intro b d c l m hb hd
    exact h.sole b d c l m (howns b _ hb) (howns d _ hd)
  · intro b hb
    have hle : s.begun ≤ b := le_of_eq_of_le hsame.begun.symm hb
    rw [hother b (by omega)]
    exact h.unbegun b hle
  · intro clients hleft
    obtain ⟨hshut, hnodup, hpooled⟩ := h.left clients (hsame.left.symm.trans hleft)
    exact ⟨hsame.isShutdown.trans hshut, hnodup, fun c hc => (hsame.pooled c).trans (hpooled c hc)⟩
  · intro loop
    have hregistered : (s₁.goTo a place).registeredOn loop = s.registeredOn loop :=
      hsame.registeredOn loop
    have hcounted := countedOn_goTo place hacquires hsame.begun hbegun loop
    have hloops : ((s₁.goTo a place).loops loop).connectionCount =
        (s₁.loops loop).connectionCount := rfl
    have hbalance := h.balance loop
    have hmoved := hcount loop
    rw [hloops, hregistered]
    by_cases hold : (s.acquires a).place.counted = some loop <;>
      by_cases hnew : place.counted = some loop <;>
      simp only [hold, hnew, if_true, if_false] at hmoved hcounted <;> omega

/-- No call moves. -/
def SameCalls (s s' : RpcConnectionPool) : Prop :=
  ∀ a, (s'.acquires a).place = (s.acquires a).place ∧ (s'.acquires a).addr = (s.acquires a).addr

theorem SameCalls.of_eq (h : s'.acquires = s.acquires) : SameCalls s s' :=
  fun a => ⟨by rw [h], by rw [h]⟩

theorem Balanced.still (h : Balanced s) (hsame : SameBook s s') (hcalls : SameCalls s s')
    (hcount : ∀ loop, (s'.loops loop).connectionCount = (s.loops loop).connectionCount) :
    Balanced s' := by
  refine ⟨?_, ?_, ?_, ?_, ?_, ?_, ?_, ?_⟩
  · rw [hsame.clients, hsame.connsPerAddr]
    exact h.length
  · rw [hsame.clients]
    exact h.nodup
  · intro addr c hc
    rw [hsame.clients] at hc
    rw [hsame.made, hsame.addr]
    exact h.filed addr c hc
  · intro a c loop ha
    rw [(hcalls a).1] at ha
    rw [(hcalls a).2, hsame.made, hsame.addr, hsame.loop, hsame.clients]
    exact h.own a c loop ha
  · intro a b c l m ha hb
    rw [(hcalls a).1] at ha
    rw [(hcalls b).1] at hb
    exact h.sole a b c l m ha hb
  · intro a ha
    rw [(hcalls a).1]
    exact h.unbegun a (le_of_eq_of_le hsame.begun.symm ha)
  · intro clients hleft
    rw [hsame.left] at hleft
    obtain ⟨hshut, hnodup, hpooled⟩ := h.left clients hleft
    exact ⟨hsame.isShutdown.trans hshut, hnodup, fun c hc => (hsame.pooled c).trans (hpooled c hc)⟩
  · intro loop
    have hcounted : s'.countedOn loop = s.countedOn loop := by
      rw [countedOn, hsame.begun]
      exact Tally.among_congr fun a _ => by rw [(hcalls a).1]
    rw [hcount, hsame.registeredOn, hcounted]
    exact h.balance loop

theorem stopped_sameBook {thread : Option Nat} {client : Nat} {wait : Bool} {es : List PoolEvent}
    (h : Stopped s thread client s' wait es) :
    SameBook s s' ∧ s'.acquires = s.acquires ∧ s'.loops = s.loops ∧ s'.shutdown = s.shutdown := by
  cases h with
  | again => exact ⟨.refl s, rfl, rfl, rfl⟩
  | bare haddr hloop => exact ⟨.setClient haddr hloop, rfl, rfl, rfl⟩
  | waits => exact ⟨.setClient rfl rfl, rfl, rfl, rfl⟩

/-! ## Steps that change the vectors -/

/-- The clients of a vector, all dead, leave the pool. -/
theorem Balanced.evict (h : Balanced s) (addr : Tcp.Bytes) (hopen : s.isShutdown = false) :
    Balanced (s.evict addr) := by
  obtain ⟨hsame, hcount⟩ := uncount_spec s (s.clients addr)
  have hclients := clients_evict s addr
  have hmade : (s.evict addr).made = s.made := hsame.made
  have hbegun : (s.evict addr).begun = s.begun := hsame.begun
  have htcp : (s.evict addr).tcpClients = s.tcpClients := hsame.tcpClients
  have hacquires : (s.evict addr).acquires = s.acquires := hsame.acquires
  have hshutdown : (s.evict addr).shutdown = s.shutdown := hsame.shutdown
  have hloops : ∀ loop, ((s.evict addr).loops loop).connectionCount =
      (s.loops loop).connectionCount -
        (s.clients addr).countP fun c => (s.tcpClients c).loop = loop := hcount
  have hleft := h.left_eq_none hopen
  have hmem : ∀ {k c}, c ∈ (s.evict addr).clients k → c ∈ s.clients k := by
    intro k c hc
    rw [hclients] at hc
    split at hc
    · exact absurd hc (by simp)
    · exact hc
  refine ⟨?_, ?_, ?_, ?_, ?_, ?_, ?_, ?_⟩
  · intro k
    rw [hclients, show (s.evict addr).connsPerAddr = s.connsPerAddr from hsame.connsPerAddr]
    split
    · exact Nat.zero_le _
    · exact h.length k
  · intro k
    rw [hclients]
    split
    · exact List.nodup_nil
    · exact h.nodup k
  · intro k c hc
    rw [hmade, htcp]
    exact h.filed k c (hmem hc)
  · rw [hacquires, hmade, htcp]
    intro a c loop ha
    obtain ⟨h₁, h₂, h₃, h₄⟩ := h.own a c loop ha
    exact ⟨h₁, h₂, h₃, fun hc => h₄ (hmem hc)⟩
  · rw [hacquires]
    exact h.sole
  · rw [hacquires, hbegun]
    exact h.unbegun
  · rw [hshutdown, hleft]
    exact fun clients hl => absurd hl (by simp)
  · intro loop
    have hcounted : (s.evict addr).countedOn loop = s.countedOn loop := by
      rw [countedOn, countedOn, hbegun, hacquires]
    -- the clients that are registered no more are those of the vector
    have hregistered : (s.evict addr).registeredOn loop +
        (s.clients addr).countP (fun c => (s.tcpClients c).loop = loop) = s.registeredOn loop := by
      have hremove := Tally.among_remove (h.nodup addr) (fun c hc => (h.filed addr c hc).1)
        (p := fun c => s.registered c && (s.tcpClients c).loop == loop)
      rw [registeredOn, registeredOn, hmade, ← hremove]
      congr 1
      · refine Tally.among_congr fun c _ => ?_
        have hpooled : (s.evict addr).pooled c = (s.pooled c && !(s.clients addr).contains c) := by
          rw [pooled, pooled, htcp, hclients]
          by_cases hc : (s.tcpClients c).addr = addr
          · simp [hc]
          · have hnot : c ∉ s.clients addr := fun hin => hc (h.filed addr c hin).2
            simp [hc, hnot]
        rw [registered, registered, hshutdown, hleft, hpooled, htcp]
        simp only [Option.all_none, Bool.and_true]
        exact Bool.and_right_comm _ _ _
      · refine List.countP_congr fun c hc => ?_
        have hin : s.registered c = true := by
          rw [registered, hleft, pooled, (h.filed addr c hc).2]
          simpa using hc
        simp [hin]
    have hbalance := h.balance loop
    rw [hloops, hcounted]
    omega

/-- One more client is registered when it is pushed to the vector of its address. -/
theorem Balanced.registeredOn_pushBack {client : Nat} (h : Balanced s)
    (hopen : s.isShutdown = false) (hlt : client < s.made)
    (hnot : client ∉ s.clients (s.tcpClients client).addr) (loop : Nat) :
    (s.pushBack (s.tcpClients client).addr client).registeredOn loop =
      s.registeredOn loop + if (s.tcpClients client).loop = loop then 1 else 0 := by
  have hnew : ∀ c, (s.pushBack (s.tcpClients client).addr client).registered c =
      (s.registered c || c == client) := by
    intro c
    have hclients := clients_pushBack s (s.tcpClients client).addr (s.tcpClients c).addr client
    show (((s.pushBack (s.tcpClients client).addr client).clients
      (s.tcpClients c).addr).contains c && s.shutdown.left.all _) = _
    rw [registered, h.left_eq_none hopen, pooled, hclients]
    by_cases hc : (s.tcpClients c).addr = (s.tcpClients client).addr
    · simp [hc, Bool.beq_eq_decide_eq]
    · have hne : c ≠ client := by
        rintro rfl
        exact hc rfl
      simp [hc, hne]
  have hold : s.registered client = false := by
    rw [registered, pooled]
    simp [hnot]
  have hrest : ∀ c < s.made, c ≠ client →
      ((s.registered c || c == client) && (s.tcpClients c).loop == loop) =
        (s.registered c && (s.tcpClients c).loop == loop) := by
    intro c _ hc
    rw [beq_false_of_ne hc, Bool.or_false]
  have hupdate := Tally.among_update hlt hrest
  have heq : (s.pushBack (s.tcpClients client).addr client).registeredOn loop =
      Tally.among s.made
        fun c => (s.registered c || c == client) && (s.tcpClients c).loop == loop :=
    Tally.among_congr fun c _ => by rw [hnew]; rfl
  rw [heq]
  simpa [hold, registeredOn] using hupdate

/-- A call publishes its client. -/
theorem Balanced.publish {a client loop : Nat} (h : Balanced s)
    (hat : (s.acquires a).place = .publish client loop) (hopen : s.isShutdown = false)
    (hroom : (s.clients (s.acquires a).addr).length < s.connsPerAddr) :
    Balanced ((s.pushBack (s.acquires a).addr client).goTo a (.ret (some client))) := by
  have hown : (s.acquires a).place.own = some (client, loop) := by rw [hat]; rfl
  obtain ⟨hlt, haddr, hloop, hnot⟩ := h.own a client loop hown
  have hclients := fun k => clients_pushBack s (s.acquires a).addr k client
  -- nothing else but one call changes
  generalize hs₁ : s.pushBack (s.acquires a).addr client = s₁ at hclients ⊢
  have hsame : s₁.acquires = s.acquires ∧ s₁.tcpClients = s.tcpClients ∧ s₁.loops = s.loops ∧
      s₁.shutdown = s.shutdown ∧ s₁.made = s.made ∧ s₁.begun = s.begun ∧
      s₁.connsPerAddr = s.connsPerAddr := by
    rw [← hs₁]
    exact ⟨rfl, rfl, rfl, rfl, rfl, rfl, rfl⟩
  obtain ⟨hacquires, htcp, hloops, hshutdown, hmade, hbegun', hconns⟩ := hsame
  have hleft := h.left_eq_none hopen
  have hbegun := h.lt_begun (a := a) (by simp [hat])
  have hother : ∀ b, b ≠ a → (s₁.goTo a (.ret (some client))).acquires b = s.acquires b := by
    intro b hb
    rw [acquires_goTo_of_ne s₁ hb, hacquires]
  have hmem : ∀ k c, c ∈ s₁.clients k → c ∈ s.clients k ∨ k = (s.acquires a).addr ∧ c = client := by
    intro k c hc
    rw [hclients] at hc
    split at hc
    · rename_i hk
      rcases List.mem_append.mp hc with hc | hc
      · exact Or.inl (hk ▸ hc)
      · exact Or.inr ⟨hk, List.mem_singleton.mp hc⟩
    · exact Or.inl hc
  have howns : ∀ b x, ((s₁.goTo a (.ret (some client))).acquires b).place.own = some x →
      b ≠ a ∧ (s.acquires b).place.own = some x := by
    intro b x hx
    by_cases hb : b = a
    · subst hb
      rw [place_goTo] at hx
      exact absurd hx (by simp [AcquirePlace.own])
    · rw [hother b hb] at hx
      exact ⟨hb, hx⟩
  refine ⟨?_, ?_, ?_, ?_, ?_, ?_, ?_, ?_⟩
  · intro k
    show (s₁.clients k).length ≤ s₁.connsPerAddr
    rw [hclients, hconns]
    split
    · simp only [List.length_append, List.length_singleton]
      omega
    · exact h.length k
  · intro k
    show (s₁.clients k).Nodup
    rw [hclients]
    split
    · refine List.nodup_append.mpr ⟨h.nodup _, by simp, ?_⟩
      intro x hx y hy hxy
      rw [List.mem_singleton] at hy
      exact hnot (hy ▸ hxy ▸ hx)
    · exact h.nodup k
  · intro k c hc
    show c < s₁.made ∧ (s₁.tcpClients c).addr = k
    rw [hmade, htcp]
    rcases hmem k c hc with hc | ⟨rfl, rfl⟩
    · exact h.filed k c hc
    · exact ⟨hlt, haddr⟩
  · intro b c l hb
    obtain ⟨hne, hold⟩ := howns b _ hb
    obtain ⟨h₁, h₂, h₃, h₄⟩ := h.own b c l hold
    rw [hother b hne]
    show c < s₁.made ∧ (s₁.tcpClients c).addr = _ ∧ (s₁.tcpClients c).loop = l ∧
      c ∉ s₁.clients (s.acquires b).addr
    rw [hmade, htcp]
    refine ⟨h₁, h₂, h₃, fun hc => ?_⟩
    rcases hmem _ c hc with hc | ⟨-, rfl⟩
    · exact h₄ hc
    · exact hne (h.sole b a c l loop hold hown)
  · intro b d c l m hb hd
    exact h.sole b d c l m (howns b _ hb).2 (howns d _ hd).2
  · intro b hb
    have hle : s.begun ≤ b := le_of_eq_of_le hbegun'.symm hb
    rw [hother b (by omega)]
    exact h.unbegun b hle
  · intro clients hl
    have hl' : s₁.shutdown.left = some clients := hl
    rw [hshutdown, hleft] at hl'
    exact absurd hl' (by simp)
  · intro l
    have hregistered : (s₁.goTo a (.ret (some client))).registeredOn l =
        s.registeredOn l + if loop = l then 1 else 0 := by
      have hadded := h.registeredOn_pushBack hopen hlt (haddr.symm ▸ hnot) l
      rw [haddr, hs₁, hloop] at hadded
      exact hadded
    have hcounted : (s₁.goTo a (.ret (some client))).countedOn l + (if loop = l then 1 else 0) =
        s.countedOn l := by
      have hmoved := countedOn_goTo (.ret (some client)) hacquires hbegun' hbegun l
      simpa [hat, AcquirePlace.counted] using hmoved
    have hcount : ((s₁.goTo a (.ret (some client))).loops l).connectionCount =
        (s.loops l).connectionCount := by
      show (s₁.loops l).connectionCount = _
      rw [hloops]
    have hbalance := h.balance l
    rw [hcount, hregistered]
    by_cases hl : loop = l
    · rw [if_pos hl] at hcounted ⊢
      omega
    · rw [if_neg hl] at hcounted ⊢
      omega

/-- A client that has just been made is in no vector. -/
theorem Balanced.pooled_make (h : Balanced s) (c : PoolClient) (i : Nat) :
    ({ s.setClient s.made c with made := s.made + 1 } : RpcConnectionPool).pooled i = true ↔
      s.pooled i = true := by
  have hold : ∀ j, j < s.made → (s.setClient s.made c).tcpClients j = s.tcpClients j := by
    intro j hj
    rw [tcpClients_setClient, if_neg (by omega)]
  show (s.clients ((s.setClient s.made c).tcpClients i).addr).contains i = true ↔ _
  rw [pooled, List.contains_iff_mem, List.contains_iff_mem]
  constructor
  · intro hi
    rw [hold i (h.filed _ i hi).1] at hi
    exact hi
  · intro hi
    rw [hold i (h.filed _ i hi).1]
    exact hi

theorem Balanced.registeredOn_make (h : Balanced s) (c : PoolClient) (loop : Nat) :
    ({ s.setClient s.made c with made := s.made + 1 } : RpcConnectionPool).registeredOn loop =
      s.registeredOn loop := by
  generalize hs₁ : ({ s.setClient s.made c with made := s.made + 1 } : RpcConnectionPool) = s₁
  have hregistered : ∀ i, s₁.registered i = s.registered i := by
    intro i
    have hpooled : s₁.pooled i = s.pooled i := by
      rw [Bool.eq_iff_iff, ← hs₁]
      exact h.pooled_make c i
    rw [registered, registered, hpooled, ← hs₁]
    rfl
  have hlast : s.registered s.made = false := by
    have hnot : s.made ∉ s.clients (s.tcpClients s.made).addr :=
      fun hin => absurd (h.filed _ _ hin).1 (Nat.lt_irrefl _)
    simp [registered, pooled, hnot]
  rw [registeredOn, show s₁.made = s.made + 1 by rw [← hs₁], Tally.among_succ, hregistered, hlast]
  refine Tally.among_congr fun i hi => ?_
  have hclient : s₁.tcpClients i = s.tcpClients i := by
    rw [← hs₁]
    exact (tcpClients_setClient s s.made i c).trans (if_neg (by omega))
  rw [hregistered, hclient]

/-- A call makes a client. -/
theorem Balanced.make {a loop : Nat} {c : PoolClient} (h : Balanced s)
    (ha : (s.acquires a).place ≠ .over) (hcounted : (s.acquires a).place.counted = none)
    (haddr : c.addr = (s.acquires a).addr) (hloop : c.loop = loop) :
    Balanced ({ s.setClient s.made c with made := s.made + 1 }.goTo a
      (.connecting s.made loop)) := by
  have hbegun := h.lt_begun ha
  generalize hs₁ : ({ s.setClient s.made c with made := s.made + 1 } : RpcConnectionPool) = s₁
  have hsame : s₁.clients = s.clients ∧ s₁.acquires = s.acquires ∧ s₁.loops = s.loops ∧
      s₁.shutdown = s.shutdown ∧ s₁.begun = s.begun ∧ s₁.made = s.made + 1 ∧
      s₁.connsPerAddr = s.connsPerAddr ∧ s₁.isShutdown = s.isShutdown := by
    rw [← hs₁]
    exact ⟨rfl, rfl, rfl, rfl, rfl, rfl, rfl, rfl⟩
  obtain ⟨hclients, hacquires, hloops, hshutdown, hbegun', hmade, hconns, hshut⟩ := hsame
  have htcp : ∀ i, s₁.tcpClients i = if i = s.made then c else s.tcpClients i := by
    rw [← hs₁]
    exact fun i => tcpClients_setClient s s.made i c
  have hold : ∀ i, i < s.made → s₁.tcpClients i = s.tcpClients i :=
    fun i hi => (htcp i).trans (if_neg (by omega))
  have hother : ∀ b, b ≠ a → (s₁.goTo a (.connecting s.made loop)).acquires b = s.acquires b := by
    intro b hb
    rw [acquires_goTo_of_ne s₁ hb, hacquires]
  have hself : (s₁.goTo a (.connecting s.made loop)).acquires a =
      { s.acquires a with place := .connecting s.made loop } := by
    rw [acquires_goTo, if_pos rfl, hacquires]
  refine ⟨?_, ?_, ?_, ?_, ?_, ?_, ?_, ?_⟩
  · intro k
    show (s₁.clients k).length ≤ s₁.connsPerAddr
    rw [hclients, hconns]
    exact h.length k
  · intro k
    show (s₁.clients k).Nodup
    rw [hclients]
    exact h.nodup k
  · intro k i hi
    have hi' : i ∈ s.clients k := hclients ▸ hi
    obtain ⟨hlt, hk⟩ := h.filed k i hi'
    show i < s₁.made ∧ (s₁.tcpClients i).addr = k
    rw [hold i hlt]
    exact ⟨by omega, hk⟩
  · intro b i l hb
    show i < s₁.made ∧ (s₁.tcpClients i).addr = _ ∧ (s₁.tcpClients i).loop = l ∧ i ∉ s₁.clients _
    rw [hclients, hmade]
    by_cases hba : b = a
    · subst hba
      rw [hself] at hb ⊢
      obtain ⟨rfl, rfl⟩ : s.made = i ∧ loop = l := by simpa [AcquirePlace.own] using hb
      rw [htcp, if_pos rfl]
      refine ⟨Nat.lt_succ_self _, haddr, hloop, fun hin => ?_⟩
      exact absurd (h.filed _ _ hin).1 (Nat.lt_irrefl _)
    · rw [hother b hba] at hb ⊢
      obtain ⟨hlt, hrest⟩ := h.own b i l hb
      rw [hold i hlt]
      exact ⟨by omega, hrest⟩
  · -- the new client is nobody else's
    have hnew : ∀ b i l, ((s₁.goTo a (.connecting s.made loop)).acquires b).place.own =
        some (i, l) → b = a ∧ i = s.made ∨ b ≠ a ∧ i < s.made ∧
          (s.acquires b).place.own = some (i, l) := by
      intro b i l hb
      by_cases hba : b = a
      · subst hba
        rw [hself] at hb
        obtain ⟨rfl, -⟩ : s.made = i ∧ loop = l := by simpa [AcquirePlace.own] using hb
        exact Or.inl ⟨rfl, rfl⟩
      · rw [hother b hba] at hb
        exact Or.inr ⟨hba, (h.own b i l hb).1, hb⟩
    intro b d i l m hb hd
    rcases hnew b i l hb with ⟨rfl, rfl⟩ | ⟨-, hlt, hb⟩
    · rcases hnew d _ m hd with ⟨rfl, -⟩ | ⟨-, hlt, -⟩
      · rfl
      · omega
    · rcases hnew d i m hd with ⟨-, rfl⟩ | ⟨-, -, hd⟩
      · omega
      · exact h.sole b d i l m hb hd
  · intro b hb
    have hle : s.begun ≤ b := le_of_eq_of_le hbegun'.symm hb
    rw [hother b (by omega)]
    exact h.unbegun b hle
  · intro clients hl
    have hl' : s₁.shutdown.left = some clients := hl
    obtain ⟨h₁, hnodup, hall⟩ := h.left clients (by rw [← hshutdown]; exact hl')
    refine ⟨hshut.trans h₁, hnodup, fun i hi => ?_⟩
    have hpooled : s₁.pooled i = true := by
      rw [← hs₁]
      exact (h.pooled_make c i).mpr (hall i hi)
    exact hpooled
  · intro l
    have hregistered : (s₁.goTo a (.connecting s.made loop)).registeredOn l =
        s.registeredOn l := by
      rw [← h.registeredOn_make c l, hs₁]
      rfl
    have hcounts : (s₁.goTo a (.connecting s.made loop)).countedOn l = s.countedOn l := by
      have hmoved := countedOn_goTo (.connecting s.made loop) hacquires hbegun' hbegun l
      rw [hcounted] at hmoved
      simpa [AcquirePlace.counted] using hmoved
    rw [hregistered, hcounts]
    show (s₁.loops l).connectionCount = _
    rw [hloops]
    exact h.balance l

/-- A call begins. -/
theorem Balanced.begin (h : Balanced s) (addr : Tcp.Bytes) (thread : Option Nat) :
    Balanced (s.beginAcquire addr thread) := by
  have hplace : ∀ b, ((s.beginAcquire addr thread).acquires b).place =
      if b = s.begun then .lookup else (s.acquires b).place := by
    intro b
    rw [acquires_beginAcquire]
    split <;> rfl
  have howns : ∀ b x, ((s.beginAcquire addr thread).acquires b).place.own = some x →
      (s.beginAcquire addr thread).acquires b = s.acquires b ∧
        (s.acquires b).place.own = some x := by
    intro b x hx
    rw [acquires_beginAcquire] at hx ⊢
    split at hx
    · exact absurd hx (by simp [AcquirePlace.own])
    · rename_i hb
      exact ⟨if_neg hb, hx⟩
  refine ⟨h.length, h.nodup, h.filed, ?_, ?_, ?_, h.left, ?_⟩
  · intro b c loop hb
    obtain ⟨heq, hb⟩ := howns b _ hb
    rw [heq]
    exact h.own b c loop hb
  · intro b d c l m hb hd
    exact h.sole b d c l m (howns b _ hb).2 (howns d _ hd).2
  · intro b hb
    have hle : s.begun + 1 ≤ b := hb
    rw [hplace, if_neg (by omega)]
    exact h.unbegun b (by omega)
  · intro loop
    have hcounted : (s.beginAcquire addr thread).countedOn loop = s.countedOn loop := by
      show Tally.among (s.begun + 1) _ = _
      rw [Tally.among_succ, hplace, if_pos rfl]
      refine Tally.among_congr fun b hb => ?_
      rw [hplace, if_neg (by omega)]
    rw [hcounted]
    exact h.balance loop

/-- The shutdown begins: every client that is in a vector is one it has to unregister. -/
theorem Balanced.shutDown (h : Balanced s) {thread : Option Nat} {copy : List Nat}
    (hidle : s.shutdown = .idle) (hcopy : copy.Perm s.allPooled) :
    Balanced { s with
      isShutdown := true
      shutdownThread := thread
      shutdown := .unregister copy } := by
  have hmem : ∀ c, c ∈ copy ↔ c < s.made ∧ s.pooled c = true := by
    intro c
    rw [hcopy.mem_iff, allPooled, List.mem_filter, List.mem_range]
  refine ⟨h.length, h.nodup, h.filed, h.own, h.sole, h.unbegun, ?_, ?_⟩
  · intro clients hl
    obtain rfl : copy = clients := Option.some.inj hl
    exact ⟨rfl, hcopy.nodup_iff.mpr (List.nodup_range.filter _), fun c hc => ((hmem c).mp hc).2⟩
  · intro loop
    refine (h.balance loop).trans ?_
    congr 2
    refine (Tally.among_congr fun c hc => ?_).symm
    have hregistered : s.registered c = s.pooled c := by
      simp [registered, hidle, ShutdownPlace.left]
    rw [hregistered]
    show (s.pooled c && copy.contains c && _) = _
    by_cases hp : s.pooled c = true
    · simp [hp, (hmem c).mpr ⟨hc, hp⟩]
    · simp [hp]

/-- The shutdown unregisters a client. -/
theorem Balanced.unregister {client : Nat} {rest : List Nat} (h : Balanced s)
    (hat : s.shutdown = .unregister (client :: rest)) :
    Balanced { s.count (s.tcpClients client).loop (-1) with shutdown := .stop client rest } := by
  have hsame := sameButCounts_count s (s.tcpClients client).loop (-1)
  obtain ⟨hshut, hnodup, hpooled⟩ := h.left (client :: rest) (by rw [hat]; rfl)
  obtain ⟨hnot, hrest⟩ := List.nodup_cons.mp hnodup
  have hin : client ∈ s.clients (s.tcpClients client).addr := by
    simpa [pooled] using hpooled client List.mem_cons_self
  have hlt : client < s.made := (h.filed _ client hin).1
  refine ⟨h.length, h.nodup, h.filed, h.own, h.sole, h.unbegun, ?_, ?_⟩
  · intro clients hl
    obtain rfl : rest = clients := Option.some.inj hl
    exact ⟨hshut, hrest, fun c hc => hpooled c (List.mem_cons_of_mem _ hc)⟩
  · intro loop
    have hleft : s.shutdown.left = some (client :: rest) := by
      rw [hat]
      rfl
    -- the client is no longer registered
    have hnew : Tally.among s.made (fun c =>
        s.pooled c && rest.contains c && (s.tcpClients c).loop == loop) +
          (if (s.tcpClients client).loop = loop then 1 else 0) = s.registeredOn loop := by
      have hother : ∀ c < s.made, c ≠ client →
          (s.pooled c && rest.contains c && (s.tcpClients c).loop == loop) =
            (s.registered c && (s.tcpClients c).loop == loop) := by
        intro c _ hc
        simp [registered, hleft, hc]
      have hupdate := Tally.among_update hlt hother
      have hold : s.registered client = true := by
        simp [registered, hleft, hpooled client List.mem_cons_self]
      simpa [hold, hnot, registeredOn] using hupdate
    have hbalance := h.balance loop
    have hcount := connectionCount_count s (s.tcpClients client).loop loop (-1)
    show ((s.count (s.tcpClients client).loop (-1)).loops loop).connectionCount =
      (Tally.among s.made (fun c =>
        s.pooled c && rest.contains c && (s.tcpClients c).loop == loop) : Int) +
          (s.countedOn loop : Int)
    rw [hcount]
    by_cases hl : (s.tcpClients client).loop = loop
    · rw [if_pos hl] at hnew
      rw [if_pos hl.symm]
      omega
    · rw [if_neg hl] at hnew
      rw [if_neg (Ne.symm hl)]
      omega

/-- The shutdown, which has unregistered all clients, clears the vectors. -/
theorem Balanced.clear (h : Balanced s) (hat : s.shutdown = .clear) :
    Balanced { s with
      clients := fun _ => []
      rrCounters := fun _ => 0
      shutdown := .done } := by
  have hshut := (h.left [] (by rw [hat]; rfl)).1
  refine ⟨fun _ => Nat.zero_le _, fun _ => List.nodup_nil, fun _ c hc => absurd hc (by simp), ?_,
    h.sole, h.unbegun, ?_, ?_⟩
  · intro a c loop ha
    obtain ⟨h₁, h₂, h₃, -⟩ := h.own a c loop ha
    exact ⟨h₁, h₂, h₃, by simp⟩
  · intro clients hl
    obtain rfl : [] = clients := Option.some.inj hl
    exact ⟨hshut, List.nodup_nil, fun c hc => absurd hc (by simp)⟩
  · intro loop
    refine (h.balance loop).trans ?_
    congr 2
    refine (Tally.among_congr fun c _ => ?_).symm
    simp [registered, pooled, hat, ShutdownPlace.left]

/-! ## The books balance -/

theorem acts_balanced {a : Nat} {es : List PoolEvent} (h : Balanced s)
    (hacts : Acts s a (s.acquires a).place s' es) : Balanced s' := by
  generalize hat : (s.acquires a).place = place at hacts
  have hover : place ≠ .over → (s.acquires a).place ≠ .over := by
    rw [hat]
    exact id
  -- a step at which neither what the call has made nor what it has counted changes
  have moves : ∀ {s₁ : RpcConnectionPool} {place' : AcquirePlace}, SameBook s s₁ →
      s₁.acquires = s.acquires → s₁.loops = s.loops → place ≠ .over →
      (place'.own = none ∨ place'.own = place.own) → place'.counted = place.counted →
      Balanced (s₁.goTo a place') := by
    intro s₁ place' hsame hacquires hloops hne hown hcounted
    refine h.goTo hsame hacquires (hover hne) (hat ▸ hown) fun loop => ?_
    rw [hloops, hat, hcounted]
  -- a step at which the counter of a loop moves with the call
  have books : ∀ (rr : Tcp.Bytes → Nat) {place' : AcquirePlace} {loop : Nat} {n : Int},
      place ≠ .over → (place'.own = none ∨ place'.own = place.own) →
      (∀ l, (if l = loop then n else 0) + (if place.counted = some l then 1 else 0) =
        if place'.counted = some l then (1 : Int) else 0) →
      Balanced ({ s.count loop n with rrCounters := rr }.goTo a place') := by
    intro rr place' loop n hne hown hn
    refine h.goTo (.of_count s loop n rr) rfl (hover hne) (hat ▸ hown) fun l => ?_
    have hcount := connectionCount_count s loop l n
    show ((s.count loop n).loops l).connectionCount + _ = _
    rw [hcount, hat, Int.add_assoc, hn]
  have uncounts : ∀ loop l : Nat, (if l = loop then (-1 : Int) else 0) +
      (if some loop = some l then 1 else 0) = if none = some l then 1 else 0 := by
    intro loop l
    by_cases hl : l = loop
    · simp [hl]
    · simp [hl, Ne.symm hl]
  cases hacts with
  | lookup hlookup =>
    cases hlookup with
    | shut | room => exact moves (.refl s) rfl rfl (by simp) (Or.inl rfl) rfl
    | found => exact moves (.of_rr s _) rfl rfl (by simp) (Or.inl rfl) rfl
    | evicts hopen =>
      have hacquires : (s.evict (s.acquires a).addr).acquires = s.acquires :=
        (uncount_spec s (s.clients (s.acquires a).addr)).1.acquires
      refine (h.evict _ hopen).goTo (.refl _) rfl ?_ (Or.inl rfl) fun loop => ?_
      · rw [hacquires]
        exact hover (by simp)
      · rw [hacquires, hat]
        rfl
  | goes hgoes =>
    cases hgoes with
    | stale | choice | noLoop | fails =>
      exact moves (.refl s) rfl rfl (by simp) (Or.inl rfl) rfl
  | connect hconnect =>
    rename_i loop ok
    obtain ⟨rfl, -⟩ := Prod.mk.inj hconnect
    refine h.make (hover (by simp)) (by rw [hat]; rfl) ?_ ?_
    · cases ok <;> rfl
    · cases ok <;> rfl
  | connects =>
    rename_i client loop _
    have hcalls : SameCalls s (s.seeFor a client) := by
      intro b
      rw [acquires_seeFor]
      split
      · rename_i hb
        rw [hb]
        exact ⟨rfl, rfl⟩
      · exact ⟨rfl, rfl⟩
    have hplace : ((s.seeFor a client).acquires a).place = .connecting client loop :=
      (hcalls a).1.trans hat
    have hsaw : Balanced (s.seeFor a client) :=
      h.still ⟨rfl, rfl, rfl, rfl, rfl, rfl, fun _ => rfl, fun _ => rfl⟩ hcalls fun _ => rfl
    refine hsaw.goTo (.refl _) rfl (by simp [hplace]) (Or.inr ?_) fun l => ?_
    · rw [hplace]
      rfl
    · rw [hplace]
      rfl
  | counts =>
    rename_i client loop
    refine books s.rrCounters (by simp) (Or.inr rfl) fun l => ?_
    simp [AcquirePlace.counted, eq_comm]
  | publish hpublish =>
    cases hpublish with
    | shut => exact moves (.refl s) rfl rfl (by simp) (Or.inr rfl) rfl
    | added hopen hroom => exact h.publish hat hopen hroom
    | full =>
      exact books _ (by simp) (Or.inl rfl) fun l => uncounts _ l
  | drops =>
    exact books s.rrCounters (by simp) (Or.inl rfl) fun l => uncounts _ l
  | stops hstop =>
    rename_i client next s₁ wait
    obtain ⟨hsame, hacquires, hloops, -⟩ := stopped_sameBook hstop
    refine moves hsame hacquires hloops (by simp) (Or.inl ?_) ?_
    · cases wait <;> cases next <;> rfl
    · cases wait <;> cases next <;> rfl
  | stopped =>
    rename_i client next _
    refine moves (.refl s) rfl rfl (by simp) (Or.inl ?_) ?_
    · cases next <;> rfl
    · cases next <;> rfl
  | ret => exact moves (.refl s) rfl rfl (by simp) (Or.inl rfl) rfl

theorem shuts_balanced {es : List PoolEvent} (h : Balanced s) (hshuts : Shuts s s.shutdown s' es) :
    Balanced s' := by
  generalize hat : s.shutdown = place at hshuts
  cases hshuts with
  | unregisters => exact h.unregister hat
  | clears => exact h.clear hat
  | joins | joined | stopped | ended =>
    exact h.still ⟨rfl, rfl, rfl, rfl, rfl, by rw [hat]; rfl, fun _ => rfl, fun _ => rfl⟩
      (.of_eq rfl) fun _ => rfl
  | stops hstop =>
    rename_i client rest s₁ wait
    obtain ⟨hsame, hacquires, hloops, -⟩ := stopped_sameBook hstop
    refine h.still ⟨hsame.connsPerAddr, hsame.isShutdown, hsame.clients, hsame.made, hsame.begun,
      ?_, hsame.addr, hsame.loop⟩ (.of_eq hacquires) fun loop => ?_
    · rw [hat]
      cases wait <;> rfl
    · show (s₁.loops loop).connectionCount = _
      rw [hloops]
  | join =>
    rename_i loop _
    refine h.still ⟨rfl, rfl, rfl, rfl, rfl, ?_, fun _ => rfl, fun _ => rfl⟩ (.of_eq rfl)
      fun l => ?_
    · rw [hat]
      show ShutdownPlace.left (if s.shutdownThread = some loop then _ else _) = _
      split <;> rfl
    · show ((s.setLoop loop _).loops l).connectionCount = _
      rw [loops_setLoop]
      split
      · rename_i hl
        rw [hl]
      · rfl

theorem step_balanced {l : PoolLabel} {es : List PoolEvent} (h : Balanced s)
    (hstep : s.step l = some (s', es)) : Balanced s' := by
  have hsteps := step_cases hstep
  cases hsteps with
  | begins => exact h.begin _ _
  | acquire hacts => exact acts_balanced h hacts
  | discovers => exact h.still (.of_rr s _) (.of_eq rfl) fun _ => rfl
  | shutsDown hidle _ hcopy => exact h.shutDown hidle hcopy
  | shutdown hshuts => exact shuts_balanced h hshuts
  | loop =>
    refine h.still ⟨rfl, rfl, rfl, rfl, rfl, rfl, fun _ => rfl, fun _ => rfl⟩ (.of_eq rfl)
      fun l => ?_
    rw [loops_setLoop]
    split
    · rename_i hl
      rw [hl]
    · rfl
  | establishes _ _ hs₁ =>
    rename_i client _ _ s₁
    have hone : SameBook s s₁ ∧ s₁.acquires = s.acquires ∧ s₁.loops = s.loops := by
      rw [hs₁]
      exact ⟨.setClient rfl rfl, rfl, rfl⟩
    obtain ⟨hsame, hacquires, hloops⟩ := hone
    split
    · refine h.still ⟨hsame.connsPerAddr, hsame.isShutdown, hsame.clients, hsame.made, hsame.begun,
        hsame.left, hsame.addr, hsame.loop⟩ (fun a => ?_) fun loop => ?_
      · rw [acquires_see, hacquires]
        split <;> exact ⟨rfl, rfl⟩
      · show (s₁.loops loop).connectionCount = _
        rw [hloops]
    · exact h.still hsame (.of_eq hacquires) fun loop => by rw [hloops]
  | handles hhandles =>
    refine h.still ?_ (.of_eq rfl) fun _ => rfl
    cases hhandles with
    | refuses | destroys | dies => exact .setClient rfl rfl

/-- In every run of the pool, whatever its calls, connections and shutdown do: no vector has
    more clients than it may or one client twice, and the counter of each loop is the number of
    the registered clients on it and of the calls that have counted a client on it. -/
theorem pool_accounting (ioThreads connsPerAddr : Nat) {ls : List PoolLabel}
    {s : RpcConnectionPool} {es : List PoolEvent}
    (hrun : run step (new ioThreads connsPerAddr) ls = some (s, es)) :
    (∀ addr, (s.clients addr).length ≤ max 1 connsPerAddr ∧ (s.clients addr).Nodup) ∧
      ∀ loop, (s.loops loop).connectionCount = (s.registeredOn loop : Int) + s.countedOn loop ∧
        0 ≤ (s.loops loop).connectionCount := by
  have key : Balanced s ∧ s.connsPerAddr = max 1 connsPerAddr := by
    refine run_invariant (fun s => Balanced s ∧ s.connsPerAddr = max 1 connsPerAddr) ?_
      ⟨balanced_new ioThreads connsPerAddr, rfl⟩ hrun
    intro s l s' es ⟨hbalanced, hconns⟩ hstep
    exact ⟨step_balanced hbalanced hstep, (step_fixed hstep).1.trans hconns⟩
  obtain ⟨hbalanced, hconns⟩ := key
  refine ⟨fun addr => ⟨hconns ▸ hbalanced.length addr, hbalanced.nodup addr⟩, fun loop => ?_⟩
  have hbalance := hbalanced.balance loop
  exact ⟨hbalance, by omega⟩

/-- A call connects, its connection dies, another call evicts it and connects anew; the
    shutdown comes before it publishes. -/
def evictsThenDrops : List PoolLabel :=
  [.loops 0, .begins [97] none, .acquire 0 (.loads [0] []), .acquire 0 .none,
    .acquire 0 (.started true), .establishes 0, .acquire 0 .none, .acquire 0 .none,
    .acquire 0 .none, .acquire 0 .none, .dies 0, .begins [97] none, .acquire 1 (.loads [1] []),
    .acquire 1 .none, .acquire 1 .none, .destroys 0, .acquire 1 .none, .acquire 1 .none,
    .acquire 1 (.started true), .establishes 1, .acquire 1 .none, .acquire 1 .none,
    .shutsDown none [], .shutdown, .acquire 1 .none]

theorem pool_accounting_drop :
    ∃ (s : RpcConnectionPool) (es : List PoolEvent),
      run step (new 1 1) evictsThenDrops = some (s, es) ∧
        (s.acquires 1).place = .drop 1 0 ∧ (s.loops 0).connectionCount = 1 ∧
        (s.loops 0).connectionCount = (s.registeredOn 0 : Int) + s.countedOn 0 := by
  have hrun : (run step (new 1 1) evictsThenDrops).map (fun r =>
      decide ((r.1.acquires 1).place = .drop 1 0 ∧ (r.1.loops 0).connectionCount = 1)) =
        some true := by
    decide +kernel
  obtain ⟨⟨s, es⟩, hs, hmem⟩ := Option.map_eq_some_iff.mp hrun
  obtain ⟨hplace, hcount⟩ := of_decide_eq_true hmem
  exact ⟨s, es, hs, hplace, hcount, ((pool_accounting 1 1 hs).2 0).1⟩

end RpcConnectionPool

end RocketRpc.Rpc
