import RocketRpc.Lib.Machine
import RocketRpc.Rpc.RpcServer

/-
  A `stop` beside the `start` of a server.

  `TcpServer::start` comes to its main loop in two steps that `stop` looks at: the exchange of
  `m_running` and the section that sets `m_main_loop_active`. A `stop` that exchanges
  `m_running` in front of the first does nothing, and one that waits in front of the second
  does not wait. In the runs without these two the server is down when `stop` returns.
-/

namespace RocketRpc.Rpc

open Machine

/-- How far the call of `start` is: in front of its check, of the exchange, of the section
    behind it, of the end of the main loop, or past it. -/
inductive Phase where
  | asked
  | admitted
  | exchanged
  | active
  | over
  deriving DecidableEq, Repr

def StartAt.phase : StartAt → Phase
  | .check => .asked
  | .monitor | .cas => .admitted
  | .lifecycle => .exchanged
  | .ioGroup _ | .ready | .enterLoop | .loop | .poll | .accept | .testGroup | .assign
  | .register | .leaveLoop | .inactive => .active
  | .checkRunning | .tcpStop _ | .endMonitor | .returned => .over

namespace RpcServer

/-- The main loop is running. -/
def loopRuns (s : RpcServer) : Bool :=
  match s.startAt with
  | .loop | .poll | .accept | .testGroup | .assign | .register | .leaveLoop => true
  | _ => false

/-- The main loop is still going to be entered. -/
def loopAhead (s : RpcServer) : Bool :=
  match s.startAt with
  | .monitor | .cas | .lifecycle | .ioGroup _ | .ready | .enterLoop => true
  | _ => false

end RpcServer

/-- The condition on a step: `stop` exchanges `m_running` when `start` is not between its check
    and its own exchange, and ends its wait when `start` is not in front of the section that
    sets `m_main_loop_active`. -/
structure InTurn (s : RpcServer) (l : RaceLabel) : Prop where
  exchange : l = .stop → s.stopAt = .tcpStop .exchange → s.startAt.phase ≠ .admitted
  wait : l = .stop → s.stopAt = .tcpStop .wait → s.startAt.phase ≠ .exchanged

instance (s : RpcServer) : DecidablePred (InTurn s) := fun l =>
  decidable_of_iff
    ((l = .stop → s.stopAt = .tcpStop .exchange → s.startAt.phase ≠ .admitted) ∧
      (l = .stop → s.stopAt = .tcpStop .wait → s.startAt.phase ≠ .exchanged))
    ⟨fun h => ⟨h.1, h.2⟩, fun h => ⟨h.exchange, h.wait⟩⟩

/-- What `stop` may rely on at each of its steps. -/
def StopAt.Sees (p : Phase) : StopAt → Prop
  | .tcpStop .stopLoop | .tcpStop .wait => p = .exchanged ∨ p = .active ∨ p = .over
  | .tcpStop .connections | .tcpStop .reset => p = .over
  | .returned => p = .asked ∨ p = .over
  | _ => True

/-- `stop` has not yet come to the exchange of `m_running`. -/
def StopAt.before : StopAt → Bool
  | .stopping | .monitor | .dispatcher | .tcpStop .lock | .tcpStop .exchange => true
  | _ => false

structure Orderly (s : RpcServer) : Prop where
  stopping : s.stopAt ≠ .stopping → s.stopping = true
  fresh : s.stopAt = .stopping → s.stopping = false
  running : s.running = true → s.startAt.phase ≠ .asked ∧ s.startAt.phase ≠ .admitted
  kept : s.stopAt.before = true → s.startAt.phase = .exchanged ∨ s.startAt.phase = .active →
    s.running = true
  active : s.mainLoopActive = true ↔ s.startAt.phase = .active
  sees : s.stopAt.Sees s.startAt.phase
  alive : s.ioGroup = false → s.startAt.phase = .over

variable {s s' : RpcServer} {es : List RaceEvent}

theorem sees_over (q : StopAt) : q.Sees .over := by
  cases q with
  | tcpStop q => cases q <;> simp [StopAt.Sees]
  | _ => simp [StopAt.Sees]

/-- `start` comes from its own exchange to the section that tells `stop` to wait. -/
theorem StopAt.Sees.active {q : StopAt} (h : q.Sees .exchanged) : q.Sees .active := by
  cases q with
  | tcpStop q => cases q <;> simp_all [StopAt.Sees]
  | returned => simp [StopAt.Sees] at h
  | _ => trivial

/-- What `stop` relies on in front of the exchange of `start` says that it has not begun to. -/
theorem StopAt.Sees.exchanged {q : StopAt} (h : q.Sees .admitted) : q.Sees .exchanged := by
  cases q with
  | tcpStop q => cases q <;> simp_all [StopAt.Sees]
  | returned => simp [StopAt.Sees] at h
  | _ => trivial

/-! ## Steps of `start` -/

/-- `start` goes on within its phase. -/
theorem Orderly.stay (h : Orderly s) (hstopping : s'.stopping = s.stopping)
    (hstopAt : s'.stopAt = s.stopAt) (hrunning : s'.running = s.running)
    (hactive : s'.mainLoopActive = s.mainLoopActive) (hgroup : s'.ioGroup = s.ioGroup)
    (hphase : s'.startAt.phase = s.startAt.phase) : Orderly s' := by
  constructor
  · rw [hstopAt, hstopping]
    exact h.stopping
  · rw [hstopAt, hstopping]
    exact h.fresh
  · rw [hrunning, hphase]
    exact h.running
  · rw [hstopAt, hphase, hrunning]
    exact h.kept
  · rw [hactive, hphase]
    exact h.active
  · rw [hstopAt, hphase]
    exact h.sees
  · rw [hgroup, hphase]
    exact h.alive

/-- `start` is past its main loop. -/
theorem Orderly.past (h : Orderly s) (hstopping : s'.stopping = s.stopping)
    (hstopAt : s'.stopAt = s.stopAt) (hactive : s'.mainLoopActive = false)
    (hphase : s'.startAt.phase = .over) : Orderly s' := by
  refine ⟨?_, ?_, fun _ => by simp [hphase], fun _ hp => by simp [hphase] at hp,
    by simp [hactive, hphase], hphase ▸ sees_over _, fun _ => hphase⟩
  · rw [hstopAt, hstopping]
    exact h.stopping
  · rw [hstopAt, hstopping]
    exact h.fresh

theorem Orderly.inactive (h : Orderly s) (hphase : s.startAt.phase ≠ .active) :
    s.mainLoopActive = false :=
  Bool.eq_false_iff.mpr fun hact => hphase (h.active.mp hact)

/-- `start` passes its check: `stop` has not begun, so it relies on nothing. -/
theorem Orderly.begins {next : StartAt} (h : Orderly s) (hasked : s.startAt.phase = .asked)
    (hstopping : s.stopping = false) (hnext : next.phase = .admitted) :
    Orderly { s with started := true, startAt := next } := by
  have hstopAt : s.stopAt = .stopping := by
    by_contra hne
    exact absurd (h.stopping hne) (by simp [hstopping])
  have hrunning : s.running = false := Bool.eq_false_iff.mpr fun hr => (h.running hr).1 hasked
  have hinactive := h.inactive (by simp [hasked])
  have hgroup : s.ioGroup = true := by
    by_contra hne
    exact absurd (h.alive (by simpa using hne)) (by simp [hasked])
  refine ⟨h.stopping, h.fresh, ?_, ?_, ?_, ?_, ?_⟩
  · simp [hrunning]
  · simp [hnext]
  · simp [hinactive, hnext]
  · simp [hstopAt, StopAt.Sees]
  · simp [hgroup]

/-- `TcpServer::stop` leaves what `stop` and `start` have to themselves alone. -/
theorem tcpStop_frame {caller : Caller} {q : TcpStopAt} {next : Option TcpStopAt}
    (hs : s.tcpStop caller q = some (s', next)) :
    s'.stopping = s.stopping ∧ s'.stopAt = s.stopAt ∧ s'.mainLoopActive = s.mainLoopActive ∧
      s'.startAt = s.startAt := by
  cases q with
  | lock | wait =>
    obtain ⟨-, heq⟩ := Option.ite_none_right_eq_some.mp hs
    obtain ⟨rfl, -⟩ := Prod.mk.inj (Option.some.inj heq)
    exact ⟨rfl, rfl, rfl, rfl⟩
  | exchange =>
    simp only [RpcServer.tcpStop] at hs
    split at hs <;> obtain ⟨rfl, -⟩ := Prod.mk.inj (Option.some.inj hs) <;>
      exact ⟨rfl, rfl, rfl, rfl⟩
  | stopLoop | connections | reset =>
    obtain ⟨rfl, -⟩ := Prod.mk.inj (Option.some.inj hs)
    exact ⟨rfl, rfl, rfl, rfl⟩

theorem start_orderly {polled : Polled} (h : Orderly s) (hs : s.start polled = some (s', es)) :
    Orderly s' := by
  unfold RpcServer.start at hs
  cases ha : s.startAt with
  | check =>
    simp only [ha] at hs
    split at hs
    · obtain ⟨rfl, rfl⟩ := Prod.mk.inj (Option.some.inj hs)
      exact h.past rfl rfl (h.inactive (by simp [ha, StartAt.phase])) rfl
    · rename_i hno
      obtain ⟨rfl, rfl⟩ := Prod.mk.inj (Option.some.inj hs)
      simp only [Bool.or_eq_true, not_or, Bool.not_eq_true] at hno
      exact h.begins (by rw [ha]; rfl) hno.2 (by split <;> rfl)
  | monitor =>
    simp only [ha] at hs
    obtain ⟨rfl, rfl⟩ := Prod.mk.inj (Option.some.inj hs)
    exact h.stay rfl rfl rfl rfl rfl (by rw [ha]; rfl)
  | cas =>
    simp only [ha] at hs
    split at hs
    · obtain ⟨rfl, rfl⟩ := Prod.mk.inj (Option.some.inj hs)
      exact h.past rfl rfl (h.inactive (by simp [ha, StartAt.phase])) rfl
    · obtain ⟨rfl, rfl⟩ := Prod.mk.inj (Option.some.inj hs)
      have hsees := h.sees
      have hinactive := h.inactive (by simp [ha, StartAt.phase])
      rw [ha] at hsees
      refine ⟨h.stopping, h.fresh, fun _ => by simp [StartAt.phase], fun _ _ => rfl,
        by simp [hinactive, StartAt.phase], hsees.exchanged, fun hg => ?_⟩
      exact absurd (h.alive hg) (by simp [ha, StartAt.phase])
  | lifecycle =>
    simp only [ha] at hs
    obtain ⟨rfl, rfl⟩ := Prod.mk.inj (Option.some.inj hs)
    have hsees := h.sees
    rw [ha] at hsees
    refine ⟨h.stopping, h.fresh, fun _ => by simp [StartAt.phase], fun hb _ => ?_,
      by simp [StartAt.phase], hsees.active, fun hg => ?_⟩
    · exact h.kept hb (Or.inl (by rw [ha]; rfl))
    · exact absurd (h.alive hg) (by simp [ha, StartAt.phase])
  | ioGroup i | enterLoop | loop | accept | testGroup =>
    simp only [ha] at hs
    split at hs <;> obtain ⟨rfl, rfl⟩ := Prod.mk.inj (Option.some.inj hs) <;>
      exact h.stay rfl rfl rfl rfl rfl (by simp [*, StartAt.phase])
  | ready | assign | register | leaveLoop =>
    simp only [ha] at hs
    obtain ⟨rfl, rfl⟩ := Prod.mk.inj (Option.some.inj hs)
    exact h.stay rfl rfl rfl rfl rfl (by rw [ha]; rfl)
  | poll =>
    simp only [ha] at hs
    cases polled <;> obtain ⟨rfl, rfl⟩ := Prod.mk.inj (Option.some.inj hs) <;>
      exact h.stay rfl rfl rfl rfl rfl (by rw [ha]; rfl)
  | inactive =>
    simp only [ha] at hs
    obtain ⟨rfl, rfl⟩ := Prod.mk.inj (Option.some.inj hs)
    exact h.past rfl rfl rfl rfl
  | checkRunning =>
    simp only [ha] at hs
    obtain ⟨rfl, rfl⟩ := Prod.mk.inj (Option.some.inj hs)
    refine h.past rfl rfl (h.inactive (by simp [ha, StartAt.phase])) ?_
    dsimp only
    split <;> rfl
  | tcpStop q =>
    simp only [ha] at hs
    obtain ⟨⟨s₁, next⟩, hq, heq⟩ := Option.map_eq_some_iff.mp hs
    obtain ⟨hstopping, hstopAt, hactive, -⟩ := tcpStop_frame hq
    have hinactive := hactive.trans (h.inactive (by simp [ha, StartAt.phase]))
    cases next with
    | some q' =>
      obtain ⟨rfl, rfl⟩ := Prod.mk.inj heq
      exact h.past hstopping hstopAt hinactive rfl
    | none =>
      obtain ⟨rfl, rfl⟩ := Prod.mk.inj heq
      exact h.past hstopping hstopAt hinactive rfl
  | endMonitor =>
    simp only [ha] at hs
    obtain ⟨rfl, rfl⟩ := Prod.mk.inj (Option.some.inj hs)
    exact h.past rfl rfl (h.inactive (by simp [ha, StartAt.phase])) rfl
  | returned =>
    simp only [ha] at hs
    exact nomatch hs

/-- `start` only calls into the group while it is active. -/
theorem start_calls {polled : Polled} (hs : s.start polled = some (s', es)) :
    es = [] ∨ (s.startAt.phase = .active ∧ es = [.callsIoGroup s.ioGroup]) := by
  unfold RpcServer.start at hs
  cases ha : s.startAt with
  | ioGroup i | assign | register =>
    simp only [ha] at hs
    obtain ⟨-, rfl⟩ := Prod.mk.inj (Option.some.inj hs)
    exact Or.inr ⟨rfl, rfl⟩
  | check | cas | enterLoop =>
    simp only [ha] at hs
    split at hs <;> obtain ⟨-, rfl⟩ := Prod.mk.inj (Option.some.inj hs) <;> exact Or.inl rfl
  | poll =>
    simp only [ha] at hs
    cases polled <;> obtain ⟨-, rfl⟩ := Prod.mk.inj (Option.some.inj hs) <;> exact Or.inl rfl
  | tcpStop q =>
    simp only [ha] at hs
    obtain ⟨⟨s₁, next⟩, -, heq⟩ := Option.map_eq_some_iff.mp hs
    cases next <;> obtain ⟨-, rfl⟩ := Prod.mk.inj heq <;> exact Or.inl rfl
  | returned =>
    simp only [ha] at hs
    exact nomatch hs
  | _ =>
    simp only [ha] at hs
    obtain ⟨-, rfl⟩ := Prod.mk.inj (Option.some.inj hs)
    exact Or.inl rfl

/-! ## Steps of `stop` -/

/-- `stop` goes on and leaves `start` where it is. -/
theorem Orderly.next (h : Orderly s) (hstopping : s'.stopping = true)
    (hbegun : s'.stopAt ≠ .stopping) (hstart : s'.startAt = s.startAt)
    (hactive : s'.mainLoopActive = s.mainLoopActive)
    (hrunning : s'.running = true → s.running = true)
    (hkept : s'.stopAt.before = true → s.stopAt.before = true ∧ s'.running = s.running)
    (hsees : s'.stopAt.Sees s.startAt.phase)
    (halive : s'.ioGroup = false → s.startAt.phase = .over) : Orderly s' := by
  refine ⟨fun _ => hstopping, fun hno => absurd hno hbegun, ?_, fun hb hp => ?_, ?_, ?_, ?_⟩
  · rw [hstart]
    exact fun hr => h.running (hrunning hr)
  · obtain ⟨hb', hr⟩ := hkept hb
    rw [hr]
    exact h.kept hb' (hstart ▸ hp)
  · rw [hactive, hstart]
    exact h.active
  · rw [hstart]
    exact hsees
  · rw [hstart]
    exact halive

theorem stop_orderly (h : Orderly s) (hok : InTurn s .stop) (hs : s.stop = some s') :
    Orderly s' := by
  have hsees := h.sees
  unfold RpcServer.stop at hs
  cases ha : s.stopAt with
  | stopping =>
    simp only [ha] at hs
    rw [if_neg (by simp [h.fresh ha])] at hs
    obtain rfl := Option.some.inj hs
    exact h.next rfl (by simp) rfl rfl id (fun _ => ⟨by rw [ha]; rfl, rfl⟩) trivial h.alive
  | monitor | dispatcher =>
    have hstopping := h.stopping (by simp [ha])
    simp only [ha] at hs
    obtain rfl := Option.some.inj hs
    exact h.next hstopping (by simp) rfl rfl id (fun _ => ⟨by rw [ha]; rfl, rfl⟩) trivial h.alive
  | tcpStop q =>
    have hstopping := h.stopping (by simp [ha])
    rw [ha] at hsees
    simp only [ha] at hs
    obtain ⟨⟨s₁, next⟩, hq, heq⟩ := Option.map_eq_some_iff.mp hs
    cases q with
    | lock =>
      obtain ⟨-, hq⟩ := Option.ite_none_right_eq_some.mp hq
      obtain ⟨rfl, rfl⟩ := Prod.mk.inj (Option.some.inj hq)
      obtain rfl := heq
      exact h.next hstopping (by simp) rfl rfl id (fun _ => ⟨by rw [ha]; rfl, rfl⟩) trivial h.alive
    | exchange =>
      simp only [RpcServer.tcpStop] at hq
      split at hq
      · -- `start` has exchanged `m_running`, and comes to its main loop or has left it
        rename_i hr
        obtain ⟨rfl, rfl⟩ := Prod.mk.inj (Option.some.inj hq)
        obtain rfl := heq
        refine h.next hstopping (by simp) rfl rfl (by simp) (by simp [StopAt.before]) ?_ h.alive
        obtain ⟨hasked, hadmitted⟩ := h.running hr
        cases hp : s.startAt.phase <;> simp_all [StopAt.Sees]
      · -- `start` is not on its way to the main loop, by the condition
        rename_i hr
        obtain ⟨rfl, rfl⟩ := Prod.mk.inj (Option.some.inj hq)
        obtain rfl := heq
        refine h.next hstopping (by simp) rfl rfl id (by simp [StopAt.before]) ?_ h.alive
        have hadmitted := hok.exchange rfl ha
        have hkept := h.kept (by rw [ha]; rfl)
        cases hp : s.startAt.phase <;> simp_all [StopAt.Sees]
    | stopLoop =>
      obtain ⟨rfl, rfl⟩ := Prod.mk.inj (Option.some.inj hq)
      obtain rfl := heq
      exact h.next hstopping (by simp) rfl rfl id (by simp [StopAt.before]) hsees h.alive
    | wait =>
      obtain ⟨hguard, hq⟩ := Option.ite_none_right_eq_some.mp hq
      obtain ⟨rfl, rfl⟩ := Prod.mk.inj (Option.some.inj hq)
      obtain rfl := heq
      have hinactive : s.startAt.phase ≠ .active := by
        intro hp
        simp [RpcServer.isStartThread, h.active.mpr hp] at hguard
      have hover : s.startAt.phase = .over :=
        (hsees.resolve_left (hok.wait rfl ha)).resolve_left hinactive
      exact h.next hstopping (by simp) rfl rfl id (by simp [StopAt.before]) hover h.alive
    | connections =>
      obtain ⟨rfl, rfl⟩ := Prod.mk.inj (Option.some.inj hq)
      obtain rfl := heq
      exact h.next hstopping (by simp) rfl rfl id (by simp [StopAt.before]) hsees h.alive
    | reset =>
      obtain ⟨rfl, rfl⟩ := Prod.mk.inj (Option.some.inj hq)
      obtain rfl := heq
      exact h.next hstopping (by simp) rfl rfl id (by simp [StopAt.before]) (Or.inr hsees)
        fun _ => hsees
  | returned =>
    simp only [ha] at hs
    exact nomatch hs

/-! ## Runs -/

/-- The server is in order, and no call into the group was made behind its end. -/
def InOrder (s : RpcServer) (tr : List RaceEvent) : Prop :=
  Orderly s ∧ ∀ alive, .callsIoGroup alive ∈ tr → alive = true

theorem step_inOrder {l : RaceLabel} {tr : List RaceEvent} (h : InOrder s tr) (hok : InTurn s l)
    (hs : s.step l = some (s', es)) : InOrder s' (tr ++ es) := by
  obtain ⟨ho, halive⟩ := h
  cases l with
  | start polled =>
    refine ⟨start_orderly ho hs, fun alive hmem => ?_⟩
    rcases List.mem_append.mp hmem with hmem | hmem
    · exact halive alive hmem
    · rcases start_calls hs with rfl | ⟨hp, rfl⟩
      · exact absurd hmem List.not_mem_nil
      · rw [RaceEvent.callsIoGroup.inj (List.mem_singleton.mp hmem)]
        by_contra hne
        exact absurd (ho.alive (by simpa using hne)) (by simp [hp])
  | stop =>
    obtain ⟨s₁, hstop, heq⟩ := Option.map_eq_some_iff.mp hs
    obtain ⟨rfl, rfl⟩ := Prod.mk.inj heq
    rw [List.append_nil]
    exact ⟨stop_orderly ho hok hstop, halive⟩

/-- In a run that meets the condition: once `stop` has returned the main loop does not run and
    is not going to be entered with its stop flag unset, and `start` never calls into the IO
    thread group after it is reset. -/
theorem stop_is_final (handleProcessSignals valid : Bool) (ioThreads : Nat) (ls : List RaceLabel)
    (s : RpcServer) (tr : List RaceEvent)
    (hok : RunOk RpcServer.step InTurn (.new handleProcessSignals valid ioThreads) ls)
    (hrun : run RpcServer.step (.new handleProcessSignals valid ioThreads) ls = some (s, tr)) :
    (s.stopAt = .returned →
        s.loopRuns = false ∧ ¬ (s.loopAhead = true ∧ s.stopFlag = false)) ∧
      ∀ alive, .callsIoGroup alive ∈ tr → alive = true := by
  have hnew : InOrder (.new handleProcessSignals valid ioThreads) [] := by
    refine ⟨⟨by simp [RpcServer.new], fun _ => rfl, by simp [RpcServer.new], ?_, ?_, trivial, ?_⟩,
      by simp⟩
    all_goals simp [RpcServer.new, StartAt.phase]
  obtain ⟨ho, halive⟩ : InOrder s tr := runOk_induction InOrder
    (fun _ _ _ _ _ h hok hs => step_inOrder h hok hs) [] hnew hok hrun
  refine ⟨fun hret => ?_, halive⟩
  have hsees := ho.sees
  rw [hret] at hsees
  unfold RpcServer.loopRuns RpcServer.loopAhead
  rcases hsees with hp | hp <;> cases ha : s.startAt <;> simp_all [StartAt.phase]

/-- `n` steps of `start`; its polls find nothing to accept. -/
def starts (n : Nat) : List RaceLabel := List.replicate n (.start .other)

def stops (n : Nat) : List RaceLabel := List.replicate n .stop

/-- `stop` finds the main loop in its poll and waits for it. -/
theorem stop_is_final_waited :
    ∃ s tr, run RpcServer.step (.new false true 1) (starts 8 ++ stops 6 ++ starts 4 ++ stops 3) =
        some (s, tr) ∧ s.stopAt = .returned ∧ tr = [.callsIoGroup true, .callsIoGroup true] ∧
      (s.loopRuns = false ∧ ¬ (s.loopAhead = true ∧ s.stopFlag = false)) ∧
      ∀ alive, .callsIoGroup alive ∈ tr → alive = true := by
  have hrun : (run RpcServer.step (.new false true 1)
      (starts 8 ++ stops 6 ++ starts 4 ++ stops 3)).map (fun r =>
        decide (r.1.stopAt = .returned ∧ r.2 = [.callsIoGroup true, .callsIoGroup true])) =
      some true := by
    decide +kernel
  obtain ⟨⟨s, tr⟩, hs, heq⟩ := Option.map_eq_some_iff.mp hrun
  obtain ⟨hret, htr⟩ := of_decide_eq_true heq
  obtain ⟨hfinal, halive⟩ := stop_is_final false true 1 _ s tr (by decide +kernel) hs
  exact ⟨s, tr, hs, hret, htr, hfinal hret, halive⟩

/-- `stop` comes between the check of `start` and its exchange and does nothing: it has
    returned, and the main loop polls. Or it comes between the exchange and the section behind
    it and does not wait: `start` calls into the group that it has reset. -/
theorem stop_is_final_raced :
    (∃ ls s tr, run RpcServer.step (.new false true 1) ls = some (s, tr) ∧
      s.stopAt = .returned ∧ s.loopRuns = true ∧ s.stopFlag = false) ∧
    ∃ ls s tr, run RpcServer.step (.new false true 1) ls = some (s, tr) ∧
      s.stopAt = .returned ∧ .callsIoGroup false ∈ tr := by
  have hnothing : (run RpcServer.step (.new false true 1) (starts 1 ++ stops 5 ++ starts 7)).map
      (fun r => decide (r.1.stopAt = .returned ∧ r.1.loopRuns = true ∧ r.1.stopFlag = false)) =
      some true := by
    decide +kernel
  have hreset : (run RpcServer.step (.new false true 1) (starts 2 ++ stops 9 ++ starts 2)).map
      (fun r => decide (r.1.stopAt = .returned ∧ .callsIoGroup false ∈ r.2)) = some true := by
    decide +kernel
  constructor
  · obtain ⟨⟨s, tr⟩, hs, heq⟩ := Option.map_eq_some_iff.mp hnothing
    obtain ⟨hret, hruns, hflag⟩ := of_decide_eq_true heq
    exact ⟨_, s, tr, hs, hret, hruns, hflag⟩
  · obtain ⟨⟨s, tr⟩, hs, heq⟩ := Option.map_eq_some_iff.mp hreset
    obtain ⟨hret, hcalls⟩ := of_decide_eq_true heq
    exact ⟨_, s, tr, hs, hret, hcalls⟩

end RocketRpc.Rpc
