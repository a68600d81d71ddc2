import RocketRpc.Lib.Gate
import RocketRpc.Rpc.RpcChannel

/-
  A call completes once, and its caller gets its objects back for good.

  The flag `finished` of a call is a gate: `Keeps` relates the states of a call to the phases
  of a gate (`Gate.Phase`), every step of the call is a step of the gate or none
  (`step_keeps`), and so every run shows a history of the gate (`run_keeps`).
  `call_completes_once` reads off what that means for the controller, the response and the
  thread that waits in `CallMethodBlocking`.
-/

namespace RocketRpc.Rpc

open Machine World

variable {Message : Type} {parse : Tcp.Bytes → Message × Bool}

namespace Event

def isRan : Event Message → Bool
  | .ran _ _ => true
  | _ => false

def isWon : Event Message → Bool
  | .won _ _ => true
  | _ => false

/-- The write an event is. -/
def write : Event Message → Option (Write Message)
  | .wrote _ _ x => some x
  | _ => none

/-- What an event is for the gate. -/
def act : Event Message → Gate.Act (ThreadId × Finisher) (Write Message) Int32
  | .won t f => .win (t, f)
  | .wrote t f x => .use (t, f) x
  | .ran t f => .close (t, f)
  | .returned code => .leave code

end Event

theorem owned_write (w : World Message) (x : Write Message) :
    (w.write x).owned = w.owned.write x := by
  cases x <;> rfl

/-! ## What a step can do -/

/-- Nothing that the gate depends on differs. -/
structure SameGate (w w' : World Message) : Prop where
  finished : w'.state.finished = w.state.finished
  done : w'.state.done = w.state.done
  waitDone : w'.waitDone = w.waitDone
  threads : w'.threads = w.threads

theorem sameGate_write (w : World Message) (x : Write Message) : SameGate w (w.write x) := by
  cases x <;> exact ⟨rfl, rfl, rfl, rfl⟩

/-- The operations pass a wait for the flag of `CallMethodBlocking` before they return; `b`
    says that the call is one. -/
def guarded (b : Bool) : List (Op Message) → Bool
  | [] => true
  | .ret _ :: _ => false
  | .waitFor :: _ => b
  | .wait :: _ => b
  | .finishRpc .localTimeout :: _ => b
  | _ :: rest => guarded b rest

namespace World

/-- The flag of `CallMethodBlocking` is set. -/
def Woken (w : World Message) : Prop := w.state.done = .blocking ∧ w.waitDone = true

/-- `code` does not return before the flag is set. -/
def MayDo (w : World Message) (code : List (Op Message)) : Prop :=
  guarded (w.state.done == .blocking) code = true ∨ w.Woken

end World

/-- What a thread does in the first of its operations: one constructor for each way out of
    `exec`. -/
inductive Does (w : World Message) (t : ThreadId) (rest : List (Op Message)) :
    Op Message → Input → World Message → List (Event Message) → Prop where
  | acquired {answer} (h : w.channel.acquire answer = .ok ()) :
      Does w t rest .acquire (.found answer)
      ({ w with state := { w.state with client := true } }.goOn t (.setMsgId :: rest)) []
  | notAcquired {answer e} (h : w.channel.acquire answer = .error e) :
      Does w t rest .acquire (.found answer) (w.goOn t (.finishRpc (.preSend e) :: rest)) []
  | setMsgId {msgId} : Does w t rest .setMsgId (.generated msgId)
      ({ w with controller := { w.controller with
          msgId := if w.controller.msgId.isEmpty then msgId else w.controller.msgId } }.goOn t
        (.serialize :: rest)) []
  | serialized : Does w t rest .serialize (.serialized true)
      ({ w with state := { w.state with msgId := w.controller.msgId } }.goOn t
        (.addTimer :: rest)) []
  | notSerialized : Does w t rest .serialize (.serialized false)
      (w.goOn t (.finishRpc (.preSend .failedSerialize) :: rest)) []
  | addTimer : Does w t rest .addTimer .none
      ({ w with state := { w.state with timer := true }, armed := true }.goOn t
        (.start :: rest)) []
  | pooled (hpool : w.channel.pool = true) :
      Does w t rest .start .none (w.goOn t (.checkFinished :: rest)) []
  | connects (hpool : w.channel.pool = false) : Does w t rest .start .none
      ({ w with client := { w.client with connecting := true } }.goOn t rest) []
  | connected (hcode : w.client.connectErrorCode = 0) :
      Does w t rest .connected .none (w.goOn t (.checkFinished :: rest)) []
  | notConnected (hcode : w.client.connectErrorCode ≠ 0) :
      Does w t rest .connected .none (w.goOn t (.finishRpc .connect :: rest)) []
  | checked (hopen : w.state.finished = false) :
      Does w t rest .checkFinished .none (w.goOn t (.readMessage :: rest)) []
  | tooLate (hfinished : w.state.finished = true) :
      Does w t rest .checkFinished .none (w.goOn t rest) []
  | readMessage : Does w t rest .readMessage .none
      ({ w with client := { w.client with readCallback := true } }.goOn t
        (.recheckFinished :: rest)) []
  | rechecked (hopen : w.state.finished = false) :
      Does w t rest .recheckFinished .none (w.goOn t (.send :: rest)) []
  | cancels (hfinished : w.state.finished = true) : Does w t rest .recheckFinished .none
      ({ w with client := { w.client with readCallback := false } }.goOn t rest) []
  | send : Does w t rest .send .none (w.goOn t rest) []
  | won {f} (hopen : w.state.finished = false) : Does w t rest (.finishRpc f) .none
      ({ w with state := { w.state with finished := true } }.setThread t
        ⟨some (f, .dropTimer), rest⟩) [.won t f]
  | lost {f} (hfinished : w.state.finished = true) (hf : f ≠ .localTimeout) :
      Does w t rest (.finishRpc f) .none (w.goOn t rest) []
  | waits (hfinished : w.state.finished = true) :
      Does w t rest (.finishRpc .localTimeout) .none (w.goOn t (.wait :: rest)) []
  | woken (hset : w.waitDone = true) :
      Does w t rest .waitFor .none (w.goOn t (.ret false :: rest)) []
  | timedOut (hunset : w.waitDone = false) : Does w t rest .waitFor .timeout
      (w.goOn t (.finishRpc .localTimeout :: .ret true :: rest)) []
  | waited (hset : w.waitDone = true) : Does w t rest .wait .none (w.goOn t rest) []
  | returned {b} : Does w t rest (.ret b) .none (w.goOn t rest) [.returned (w.result b)]

theorem does_of_exec {w w' : World Message} {t : ThreadId} {rest : List (Op Message)}
    {op : Op Message} {input : Input} {es : List (Event Message)}
    (h : w.exec t rest op input = some (w', es)) : Does w t rest op input w' es := by
  have does : ∀ {w₁ : World Message} {es₁ : List (Event Message)},
      some (w₁, es₁) = some (w', es) → Does w t rest op input w₁ es₁ →
      Does w t rest op input w' es := by
    intro w₁ es₁ heq hdoes
    obtain ⟨rfl, rfl⟩ := Prod.mk.inj (Option.some.inj heq)
    exact hdoes
  cases op with
  | acquire =>
    cases input with
    | found answer =>
      simp only [exec] at h
      split at h
      · rename_i hfound
        exact does h (.acquired hfound)
      · rename_i hfound
        exact does h (.notAcquired hfound)
    | _ => simp [exec] at h
  | setMsgId =>
    cases input with
    | generated msgId => exact does h .setMsgId
    | _ => simp [exec] at h
  | serialize =>
    cases input with
    | serialized ok =>
      cases ok with
      | true => exact does h .serialized
      | false => exact does h .notSerialized
    | _ => simp [exec] at h
  | waitFor =>
    cases input with
    | none =>
      simp only [exec] at h
      split at h
      · rename_i hset
        exact does h (.woken hset)
      · exact absurd h (by simp)
    | timeout =>
      simp only [exec] at h
      split at h
      · exact absurd h (by simp)
      · rename_i hunset
        exact does h (.timedOut (by simpa using hunset))
    | _ => simp [exec] at h
  | addTimer =>
    cases input with
    | none => exact does h .addTimer
    | _ => simp [exec] at h
  | start =>
    cases input with
    | none =>
      simp only [exec] at h
      split at h
      · rename_i hpool
        exact does h (.pooled hpool)
      · rename_i hpool
        exact does h (.connects (by simpa using hpool))
    | _ => simp [exec] at h
  | connected =>
    cases input with
    | none =>
      simp only [exec] at h
      split at h
      · rename_i hcode
        exact does h (.notConnected (by simpa using hcode))
      · rename_i hcode
        exact does h (.connected (by simpa using hcode))
    | _ => simp [exec] at h
  | checkFinished =>
    cases input with
    | none =>
      simp only [exec] at h
      split at h
      · rename_i hfinished
        exact does h (.tooLate hfinished)
      · rename_i hopen
        exact does h (.checked (by simpa using hopen))
    | _ => simp [exec] at h
  | readMessage =>
    cases input with
    | none => exact does h .readMessage
    | _ => simp [exec] at h
  | recheckFinished =>
    cases input with
    | none =>
      simp only [exec] at h
      split at h
      · rename_i hfinished
        exact does h (.cancels hfinished)
      · rename_i hopen
        exact does h (.rechecked (by simpa using hopen))
    | _ => simp [exec] at h
  | send =>
    cases input with
    | none => exact does h .send
    | _ => simp [exec] at h
  | finishRpc f =>
    cases input with
    | none =>
      simp only [exec] at h
      split at h
      · rename_i hfinished
        cases f with
        | localTimeout => exact does h (.waits hfinished)
        | _ => exact does h (.lost hfinished (by simp))
      · rename_i hopen
        exact does h (.won (by simpa using hopen))
    | _ => simp [exec] at h
  | wait =>
    cases input with
    | none =>
      simp only [exec] at h
      split at h
      · rename_i hset
        exact does h (.waited hset)
      · exact absurd h (by simp)
    | _ => simp [exec] at h
  | ret localTimeout =>
    cases input with
    | none => exact does h .returned
    | _ => simp [exec] at h

/-- The steps of a thread that is not inside `finishRpc`. -/
inductive Execs (w : World Message) (t : ThreadId) (rest : List (Op Message)) :
    Op Message → World Message → List (Event Message) → Prop where
  | goOn {op} {w₁ : World Message} {code : List (Op Message)} (hsame : SameGate w w₁)
      (howned : w₁.owned = w.owned) (hcode : w.MayDo (op :: rest) → w.MayDo code) :
      Execs w t rest op (w₁.goOn t code) []
  | won {f : Finisher} (hopen : w.state.finished = false) :
      Execs w t rest (.finishRpc f)
        ({ w with state := { w.state with finished := true } }.setThread t
          ⟨some (f, .dropTimer), rest⟩) [.won t f]
  | returned {localTimeout : Bool} :
      Execs w t rest (.ret localTimeout) (w.goOn t rest) [.returned (w.result localTimeout)]

theorem World.MayDo.of_guarded {w : World Message} {code code' : List (Op Message)}
    (h : ∀ b, guarded b code = guarded b code') (hm : w.MayDo code) : w.MayDo code' :=
  hm.imp_left fun hg => by rw [← h, hg]

/-- A wait is in the code of a `CallMethodBlocking` only. -/
theorem World.MayDo.blocking {w : World Message} {code : List (Op Message)}
    (h : ∀ b, guarded b code = b) (hm : w.MayDo code) : w.state.done = .blocking := by
  rcases hm with hg | hw
  · rw [h, beq_iff_eq] at hg
    exact hg
  · exact hw.1

theorem execs_of_exec {w w' : World Message} {t : ThreadId} {rest : List (Op Message)}
    {op : Op Message} {input : Input} {es : List (Event Message)}
    (h : w.exec t rest op input = some (w', es)) : Execs w t rest op w' es := by
  -- most operations leave the gate alone and only say what the thread does next
  have next : ∀ {w₁ : World Message} {code : List (Op Message)}, SameGate w w₁ →
      w₁.owned = w.owned → (∀ b, guarded b (op :: rest) = guarded b code) →
      Execs w t rest op (w₁.goOn t code) [] := by
    intro w₁ code hsame howned hcode
    exact .goOn hsame howned (.of_guarded hcode)
  have hdoes := does_of_exec h
  cases hdoes with
  | won hopen => exact .won hopen
  | lost hfinished hf =>
    rename_i f
    refine next ⟨rfl, rfl, rfl, rfl⟩ rfl fun b => ?_
    cases f with
    | localTimeout => exact absurd rfl hf
    | _ => rfl
  | woken hset | waited hset =>
    exact .goOn ⟨rfl, rfl, rfl, rfl⟩ rfl fun hm => Or.inr ⟨hm.blocking fun _ => rfl, hset⟩
  | returned => exact .returned
  | _ => exact next ⟨rfl, rfl, rfl, rfl⟩ rfl fun _ => rfl

/-- The steps of a call: one constructor for each way out of `step`. -/
inductive CallMoves (parse : Tcp.Bytes → Message × Bool) (w : World Message) :
    Label → World Message → List (Event Message) → Prop where
  | finishes {t f stage code} (hat : w.threads t = ⟨some (f, stage), code⟩) :
      CallMoves parse w (.thread t .none) (w.finish parse t f code stage).1
        (w.finish parse t f code stage).2
  | execs {t op rest input w' es} (hat : w.threads t = ⟨none, op :: rest⟩)
      (h : w.exec t rest op input = some (w', es)) : CallMoves parse w (.thread t input) w' es
  | timerFires {t} (harmed : w.armed = true) (hat : w.threads t = ⟨none, []⟩) :
      CallMoves parse w (.timerFires t)
        ({ w with armed := false }.goOn t [.finishRpc .timer]) []
  | responseArrives {t msg} (hread : w.client.readCallback = true)
      (hat : w.threads t = ⟨none, []⟩) : CallMoves parse w (.responseArrives t msg)
      ({ w with client := { w.client with readCallback := false } }.goOn t
        [.finishRpc (.response msg)]) []
  | connectReturns {t errorCode errorInfo} (hconnecting : w.client.connecting = true)
      (hat : w.threads t = ⟨none, []⟩) :
      CallMoves parse w (.connectReturns t errorCode errorInfo)
      ({ w with client := { w.client with
          connecting := false
          connectErrorCode := errorCode
          connectErrorInfo := errorInfo } }.goOn t [.connected]) []
  | readReplaced : CallMoves parse w .readReplaced
      { w with client := { w.client with readCallback := false } } []

theorem threads_eq_of_idle {w : World Message} {t : ThreadId} (h : w.idle t = true) :
    w.threads t = ⟨none, []⟩ := by
  rcases hthread : w.threads t with ⟨finishing, code⟩
  simp only [idle, hthread, Bool.and_eq_true, Option.isNone_iff_eq_none, List.isEmpty_iff] at h
  rw [h.1, h.2]

theorem idle_of_threads {w : World Message} {t : ThreadId} (h : w.threads t = ⟨none, []⟩) :
    w.idle t = true := by
  rw [idle, h]
  rfl

theorem callMoves_of_step {w w' : World Message} {l : Label} {es : List (Event Message)}
    (h : step parse w l = some (w', es)) : CallMoves parse w l w' es := by
  have moves : ∀ {w₁ : World Message} {es₁ : List (Event Message)},
      some (w₁, es₁) = some (w', es) → CallMoves parse w l w₁ es₁ → CallMoves parse w l w' es := by
    intro w₁ es₁ heq hmoves
    obtain ⟨rfl, rfl⟩ := Prod.mk.inj (Option.some.inj heq)
    exact hmoves
  cases l with
  | thread t input =>
    simp only [step] at h
    split at h
    · rename_i f stage code hat
      split at h
      · rename_i hinput
        subst hinput
        exact moves h (.finishes hat)
      · exact absurd h (by simp)
    · rename_i op rest hat
      exact .execs hat h
    · exact absurd h (by simp)
  | timerFires t =>
    simp only [step] at h
    split at h
    · rename_i hc
      rw [Bool.and_eq_true] at hc
      exact moves h (.timerFires hc.1 (threads_eq_of_idle hc.2))
    · exact absurd h (by simp)
  | responseArrives t msg =>
    simp only [step] at h
    split at h
    · rename_i hc
      rw [Bool.and_eq_true] at hc
      exact moves h (.responseArrives hc.1 (threads_eq_of_idle hc.2))
    · exact absurd h (by simp)
  | connectReturns t errorCode errorInfo =>
    simp only [step] at h
    split at h
    · rename_i hc
      rw [Bool.and_eq_true] at hc
      exact moves h (.connectReturns hc.1 (threads_eq_of_idle hc.2))
    · exact absurd h (by simp)
  | readReplaced => exact moves h .readReplaced

/-- The steps of a call, as far as its gate is concerned. -/
inductive Steps (parse : Tcp.Bytes → Message × Bool) (w : World Message) :
    World Message → List (Event Message) → Prop where
  | exec {t op rest w' es} (hat : w.threads t = ⟨none, op :: rest⟩)
      (h : Execs w t rest op w' es) : Steps parse w w' es
  | finish {t f stage code} (hat : w.threads t = ⟨some (f, stage), code⟩) :
      Steps parse w (w.finish parse t f code stage).1 (w.finish parse t f code stage).2
  /-- A thread starts a callback. -/
  | spawn {t w₁} {code : List (Op Message)} (hidle : w.idle t = true) (hsame : SameGate w w₁)
      (howned : w₁.owned = w.owned) (hcode : ∀ b, guarded b code = true) :
      Steps parse w (w₁.goOn t code) []
  | outside {w'} (hsame : SameGate w w') (howned : w'.owned = w.owned) : Steps parse w w' []

theorem steps_of_step {w w' : World Message} {l : Label} {es : List (Event Message)}
    (h : step parse w l = some (w', es)) : Steps parse w w' es := by
  have hmoves := callMoves_of_step h
  cases hmoves with
  | finishes hat => exact .finish hat
  | execs hat hexec => exact .exec hat (execs_of_exec hexec)
  | timerFires _ hat | responseArrives _ hat | connectReturns _ hat =>
    exact .spawn (idle_of_threads hat) ⟨rfl, rfl, rfl, rfl⟩ rfl fun _ => rfl
  | readReplaced => exact .outside ⟨rfl, rfl, rfl, rfl⟩ rfl

/-! ## The call keeps to the gate -/

/-- The states of a call and the phases of its gate: only the winner is inside `finishRpc`,
    the flag of `CallMethodBlocking` is set by the closure only, and no thread can return
    before that. -/
structure Keeps (w : World Message) (p : Gate.Phase (ThreadId × Finisher)) : Prop where
  «open» : w.state.finished = false → p = .open
  winner : ∀ t f s, (w.threads t).finishing = some (f, s) → p = .held (t, f)
  woken : w.waitDone = true → ∃ i, p = .closed i
  closed : ∀ i, p = .closed i → w.state.done = .blocking → w.waitDone = true
  safe : ∀ t, w.MayDo (w.threads t).code ∨
    (w.state.done = .blocking ∧ (w.threads t).finishing ≠ none)

theorem SameGate.mayDo {w w' : World Message} (h : SameGate w w') {code : List (Op Message)}
    (hm : w.MayDo code) : w'.MayDo code := by
  unfold MayDo Woken at hm ⊢
  rw [h.done, h.waitDone]
  exact hm

theorem Keeps.same {w w' : World Message} {p : Gate.Phase (ThreadId × Finisher)}
    (h : Keeps w p) (hsame : SameGate w w') : Keeps w' p := by
  refine ⟨?_, ?_, ?_, ?_, ?_⟩
  · rw [hsame.finished]
    exact h.open
  · rw [hsame.threads]
    exact h.winner
  · rw [hsame.waitDone]
    exact h.woken
  · rw [hsame.waitDone, hsame.done]
    exact h.closed
  · intro t
    rw [hsame.threads, hsame.done]
    exact (h.safe t).imp_left hsame.mayDo

/-- A thread moves on, outside of `finishRpc` or inside of it as the same finisher. -/
theorem Keeps.setThread {w : World Message} {p : Gate.Phase (ThreadId × Finisher)}
    (h : Keeps w p) (t : ThreadId) (thread : Thread Message)
    (hwinner : ∀ f s, thread.finishing = some (f, s) → p = .held (t, f))
    (hsafe : w.MayDo thread.code ∨ (w.state.done = .blocking ∧ thread.finishing ≠ none)) :
    Keeps (w.setThread t thread) p := by
  have hself : (w.setThread t thread).threads t = thread := Function.update_self _ _ _
  have hother : ∀ u, u ≠ t → (w.setThread t thread).threads u = w.threads u := by
    intro u hu
    exact Function.update_of_ne hu _ _
  refine ⟨h.open, ?_, h.woken, h.closed, ?_⟩
  · intro u f s hu
    by_cases hut : u = t
    · subst hut
      rw [hself] at hu
      exact hwinner f s hu
    · rw [hother u hut] at hu
      exact h.winner u f s hu
  · intro u
    by_cases hut : u = t
    · subst hut
      rw [hself]
      exact hsafe
    · rw [hother u hut]
      exact h.safe u

theorem Keeps.goOn {w : World Message} {p : Gate.Phase (ThreadId × Finisher)}
    (h : Keeps w p) (t : ThreadId) {code : List (Op Message)} (hcode : w.MayDo code) :
    Keeps (w.goOn t code) p :=
  h.setThread t _ (fun _ _ heq => absurd heq (by simp)) (Or.inl hcode)

/-- What a thread outside of `finishRpc` has still to do is guarded. -/
theorem Keeps.mayDo {w : World Message} {p : Gate.Phase (ThreadId × Finisher)}
    (h : Keeps w p) {t : ThreadId} {code : List (Op Message)}
    (hat : w.threads t = ⟨none, code⟩) : w.MayDo code := by
  have hsafe := h.safe t
  rw [hat] at hsafe
  rcases hsafe with hm | ⟨-, hne⟩
  · exact hm
  · exact absurd rfl hne

/-- What a step of the gate is to the log, and the write that it does. -/
def Extends (p p' : Gate.Phase (ThreadId × Finisher)) (o o' : Owned Message)
    (es : List (Event Message)) : Prop :=
  (∀ tr, Gate.Log p tr → Gate.Log p' (tr ++ es.map Event.act)) ∧
    o' = (es.filterMap Event.write).foldl Owned.write o

theorem extends_nil {p : Gate.Phase (ThreadId × Finisher)} {o o' : Owned Message}
    (h : o' = o) : Extends p p o o' [] :=
  ⟨fun tr hlog => by simpa using hlog, by simpa using h⟩

theorem execs_keeps {w w' : World Message} {p : Gate.Phase (ThreadId × Finisher)}
    {t : ThreadId} {op : Op Message} {rest : List (Op Message)} {es : List (Event Message)}
    (h : Keeps w p) (hat : w.threads t = ⟨none, op :: rest⟩) (hexec : Execs w t rest op w' es) :
    ∃ p', Keeps w' p' ∧ Extends p p' w.owned w'.owned es := by
  cases hexec with
  | goOn hsame howned hcode =>
    exact ⟨p, (h.same hsame).goOn t (hsame.mayDo (hcode (h.mayDo hat))), extends_nil howned⟩
  | won hopen =>
    rename_i f
    obtain rfl : p = .open := h.open hopen
    have hheld : Keeps ({ w with state := { w.state with finished := true } } : World Message)
        (.held (t, f)) := by
      refine ⟨fun hf => absurd hf (by simp), ?_, ?_, fun i hi => absurd hi (by simp), h.safe⟩
      · intro u g s hu
        exact absurd (h.winner u g s hu) (by simp)
      · intro hset
        obtain ⟨i, hi⟩ := h.woken hset
        exact absurd hi (by simp)
    refine ⟨.held (t, f), hheld.setThread t _ ?_ ?_, ?_, rfl⟩
    · intro g s hg
      obtain ⟨rfl, -⟩ : f = g ∧ Stage.dropTimer = s := by simpa using hg
      rfl
    · -- a thread that wins as the local timeout is on its way to return
      have hcode := h.mayDo hat
      cases f with
      | localTimeout => exact Or.inr ⟨hcode.blocking fun _ => rfl, by simp⟩
      | _ => exact Or.inl (hcode.of_guarded fun _ => rfl)
    · intro tr hlog
      exact .win _ hlog
  | returned =>
    -- a thread can be at its return only with the flag set
    rcases h.mayDo hat with hg | hwoken
    · exact absurd hg (by simp [guarded])
    · obtain ⟨i, rfl⟩ := h.woken hwoken.2
      exact ⟨_, h.goOn t (Or.inr hwoken), fun tr hlog => .leave _ hlog, rfl⟩

/-- The winner has run the closure and leaves `finishRpc`. -/
theorem Keeps.close {w : World Message} {t : ThreadId} {f : Finisher}
    (h : Keeps w (.held (t, f))) {b : Bool} {code : List (Op Message)}
    (hwait : w.waitDone = true → b = true) (hset : w.state.done = .blocking → b = true)
    (hcode : ({ w with waitDone := b } : World Message).MayDo code) :
    Keeps ({ w with waitDone := b }.goOn t code) (.closed (t, f)) := by
  refine ⟨?_, ?_, fun _ => ⟨_, rfl⟩, fun _ _ => hset, ?_⟩
  · intro hf
    exact absurd (h.open hf) (by simp)
  · intro u g s hu
    by_cases hut : u = t
    · subst hut
      simp [World.goOn, World.setThread] at hu
    · simp only [World.goOn, World.setThread, Function.update_of_ne hut] at hu
      obtain ⟨rfl, -⟩ : t = u ∧ f = g := by simpa using h.winner u g s hu
      exact absurd rfl hut
  · intro u
    by_cases hut : u = t
    · subst hut
      refine Or.inl ?_
      simp only [World.goOn, World.setThread, Function.update_self]
      exact hcode
    · simp only [World.goOn, World.setThread, Function.update_of_ne hut]
      refine (h.safe u).imp_left fun hm => hm.imp_right fun hw => ⟨hw.1, hwait hw.2⟩

theorem finish_keeps {w : World Message} {p : Gate.Phase (ThreadId × Finisher)}
    {t : ThreadId} {f : Finisher} {stage : Stage Message} {code : List (Op Message)}
    (h : Keeps w p) (hat : w.threads t = ⟨some (f, stage), code⟩) :
    ∃ p', Keeps (w.finish parse t f code stage).1 p' ∧
      Extends p p' w.owned (w.finish parse t f code stage).1.owned
        (w.finish parse t f code stage).2 := by
  obtain rfl : p = .held (t, f) := h.winner t f stage (by rw [hat])
  have hsafe : w.MayDo code ∨ w.state.done = .blocking := by
    have hsafe := h.safe t
    rw [hat] at hsafe
    exact hsafe.imp_right And.left
  have next : ∀ {w₁ : World Message}, SameGate w w₁ → ∀ stage',
      Keeps (w₁.setThread t ⟨some (f, stage'), code⟩) (.held (t, f)) := by
    intro w₁ hsame stage'
    refine (h.same hsame).setThread t _ ?_ ?_
    · intro g s hg
      obtain ⟨rfl, -⟩ : f = g ∧ stage' = s := by simpa using hg
      rfl
    · rw [hsame.done]
      exact hsafe.imp hsame.mayDo fun hb => ⟨hb, by simp⟩
  cases stage with
  | dropTimer =>
    simp only [finish]
    split
    · refine ⟨_, next ?_ _, extends_nil rfl⟩
      exact ⟨rfl, rfl, rfl, rfl⟩
    · exact ⟨_, next ⟨rfl, rfl, rfl, rfl⟩ _, extends_nil rfl⟩
  | cancelRead =>
    simp only [finish]
    split
    · refine ⟨_, next ?_ _, extends_nil rfl⟩
      exact ⟨rfl, rfl, rfl, rfl⟩
    · exact ⟨_, next ⟨rfl, rfl, rfl, rfl⟩ _, extends_nil rfl⟩
  | beforeDone => exact ⟨_, next ⟨rfl, rfl, rfl, rfl⟩ _, extends_nil rfl⟩
  | writing writes =>
    cases writes with
    | nil => exact ⟨_, next ⟨rfl, rfl, rfl, rfl⟩ _, extends_nil rfl⟩
    | cons x xs =>
      exact ⟨_, next (sameGate_write w x) _, fun tr hlog => .use x hlog, owned_write w x⟩
  | runDone =>
    simp only [finish]
    split
    · rename_i hnull
      have hcode : w.MayDo code := by
        rcases hsafe with hm | hb
        · exact hm
        · rw [hnull] at hb
          exact absurd hb (by simp)
      exact ⟨_, h.goOn t hcode, extends_nil rfl⟩
    · rename_i huser
      have hcode : w.MayDo code := by
        rcases hsafe with hm | hb
        · exact hm
        · rw [huser] at hb
          exact absurd hb (by simp)
      exact ⟨_, h.close id (fun hb => absurd (huser.symm.trans hb) (by simp)) hcode,
        fun tr hlog => .close hlog, rfl⟩
    · rename_i hblocking
      exact ⟨_, h.close (fun _ => rfl) (fun _ => rfl) (Or.inr ⟨hblocking, rfl⟩),
        fun tr hlog => .close hlog, rfl⟩

theorem step_keeps {w w' : World Message} {p : Gate.Phase (ThreadId × Finisher)} {l : Label}
    {es : List (Event Message)} (h : Keeps w p) (hstep : step parse w l = some (w', es)) :
    ∃ p', Keeps w' p' ∧ Extends p p' w.owned w'.owned es := by
  cases steps_of_step hstep with
  | exec hat hexec => exact execs_keeps h hat hexec
  | finish hat => exact finish_keeps h hat
  | spawn hidle hsame howned hcode =>
    exact ⟨p, (h.same hsame).goOn _ (Or.inl (hcode _)), extends_nil howned⟩
  | outside hsame howned => exact ⟨p, h.same hsame, extends_nil howned⟩

/-! ## Runs -/

theorem call_keeps (channel : RpcChannel) {args : Arguments} (call : Call)
    (controller : RpcController) (response : Message) (hargs : args.passes = true) :
    Keeps (World.call channel args call controller response) .open := by
  rw [World.call, if_pos hargs]
  refine Keeps.goOn ⟨fun _ => rfl, ?_, ?_, fun i hi => absurd hi (by simp), ?_⟩ caller
    (Or.inl ?_)
  · intro t f s hs
    exact absurd hs (by simp)
  · intro hset
    exact absurd hset (by simp)
  · intro t
    exact Or.inl (Or.inl rfl)
  · cases call with
    | callMethod done => rfl
    | callMethodBlocking timeoutMs => rfl

theorem step_done {w w' : World Message} {l : Label} {es : List (Event Message)}
    (h : step parse w l = some (w', es)) : w'.state.done = w.state.done := by
  cases steps_of_step h with
  | exec hat hexec =>
    cases hexec with
    | goOn hsame howned hcode => exact hsame.done
    | won hopen => rfl
    | returned => rfl
  | finish hat =>
    rename_i stage code
    cases stage with
    | writing writes =>
      cases writes with
      | nil => rfl
      | cons x xs => exact (sameGate_write w x).done
    | dropTimer | cancelRead | runDone =>
      simp only [finish]
      split <;> rfl
    | beforeDone => rfl
  | spawn hidle hsame howned hcode => exact hsame.done
  | outside hsame howned => exact hsame.done

/-- Every run of a call shows a history of its gate, and its writes are all there is to the
    objects of the caller. -/
theorem run_keeps {w w' : World Message} {ls : List Label} {es : List (Event Message)}
    (h : Keeps w .open) (hrun : run (step parse) w ls = some (w', es)) :
    ∃ p, Keeps w' p ∧ Gate.Log p (es.map Event.act) ∧
      w'.owned = (es.filterMap Event.write).foldl Owned.write w.owned := by
  refine run_induction (fun v tr => ∃ p, Keeps v p ∧ Gate.Log p (tr.map Event.act) ∧
    v.owned = (tr.filterMap Event.write).foldl Owned.write w.owned) ?_ []
    ⟨.open, h, .nil, rfl⟩ hrun
  intro v tr l v' es' ⟨p, hkeeps, hlog, howned⟩ hstep
  obtain ⟨p', hkeeps', hext, howned'⟩ := step_keeps hkeeps hstep
  refine ⟨p', hkeeps', ?_, ?_⟩
  · rw [List.map_append]
    exact hext _ hlog
  · rw [List.filterMap_append, List.foldl_append, ← howned]
    exact howned'

theorem countP_act (es : List (Event Message)) :
    (es.map Event.act).countP Gate.Act.isClose = es.countP Event.isRan ∧
      (es.map Event.act).countP Gate.Act.isWin = es.countP Event.isWon := by
  rw [List.countP_map, List.countP_map]
  constructor <;> congr 1 <;> funext e <;> cases e <;> rfl

theorem act_injective : Function.Injective (@Event.act Message) := by
  intro e e' h
  cases e <;> cases e' <;> simp_all [Event.act]

/-- Only the thread that won the compare-exchange writes the controller's outcome and the
    response, and before it runs the closure; the closure runs once; and `CallMethodBlocking`
    returns after that, with its flag set and nobody left to write. -/
theorem call_completes_once (parse : Tcp.Bytes → Message × Bool) (channel : RpcChannel)
    (args : Arguments) (call : Call) (controller : RpcController) (response : Message)
    (ls : List Label) (w : World Message) (es : List (Event Message))
    (hargs : args.passes = true)
    (hrun : run (step parse) (World.call channel args call controller response) ls =
      some (w, es)) :
    es.countP Event.isRan ≤ 1 ∧ es.countP Event.isWon ≤ 1 ∧
      w.owned = (es.filterMap Event.write).foldl Owned.write
        (World.call channel args call controller response).owned ∧
      (∀ as t f x bs, es = as ++ .wrote t f x :: bs →
        .won t f ∈ as ∧ ∀ u g, .ran u g ∉ as) ∧
      (∀ as code bs, es = as ++ .returned code :: bs →
        (∃ t f, .ran t f ∈ as) ∧ ∀ t f x, .wrote t f x ∉ bs) ∧
      ∀ timeoutMs code, call = .callMethodBlocking timeoutMs → .returned code ∈ es →
        w.waitDone = true := by
  have hinit := call_keeps channel call controller response hargs
  obtain ⟨p, hkeeps, hlog, howned⟩ := run_keeps hinit hrun
  obtain ⟨hran, hwon⟩ := countP_act es
  have hmem : ∀ {e : Event Message} {as : List (Event Message)},
      e.act ∈ as.map Event.act → e ∈ as :=
    fun h => (List.mem_map_of_injective act_injective).mp h
  refine ⟨?_, ?_, howned, ?_, ?_, ?_⟩
  · rw [← hran, hlog.countP_isClose]
    cases p <;> simp [Gate.Phase.closes]
  · rw [← hwon, hlog.countP_isWin]
    cases p <;> simp [Gate.Phase.wins]
  · intro as t f x bs hes
    have hcut : es.map Event.act = as.map Event.act ++ .use (t, f) x :: bs.map Event.act := by
      rw [hes, List.map_append, List.map_cons]
      rfl
    obtain ⟨hwin, hclose⟩ := hlog.before_use hcut
    refine ⟨hmem hwin, fun u g hu => hclose (u, g) ?_⟩
    exact List.mem_map_of_mem hu
  · intro as code bs hes
    have hcut : es.map Event.act = as.map Event.act ++ .leave code :: bs.map Event.act := by
      rw [hes, List.map_append, List.map_cons]
      rfl
    obtain ⟨⟨i, hclose⟩, huse⟩ := hlog.at_leave hcut
    refine ⟨⟨i.1, i.2, hmem hclose⟩, fun t f x hx => huse (t, f) x ?_⟩
    exact List.mem_map_of_mem hx
  · intro timeoutMs code hcall hret
    obtain ⟨i, hi⟩ := hlog.closed_of_leave (List.mem_map_of_mem hret)
    refine hkeeps.closed i hi ?_
    have hdone := run_invariant
      (fun v : World Message => v.state.done = call.closure)
      (fun v l v' es' hv hs => (step_done hs).trans hv) ?_ hrun
    · rw [hdone, hcall]
      rfl
    · rw [World.call, if_pos hargs]
      rfl

/-- A response is being parsed when the wait of `CallMethodBlocking` times out. -/
theorem call_completes_once_late_timeout :
    ∃ (w : World Nat) (es : List (Event Nat)),
      run (step fun data => (data.length, true))
        (World.call ⟨true, true, false, []⟩ ⟨true, true, true, true⟩ (.callMethodBlocking 5) {} 0)
        [.thread 0 (.found true), .thread 0 (.generated [49]), .thread 0 (.serialized true),
          .thread 0 .none, .thread 0 .none, .thread 0 .none, .thread 0 .none, .thread 0 .none,
          .thread 0 .none, .responseArrives 1 (.tinyPB { msgId := [49], pbData := [7, 7] }),
          .thread 1 .none, .thread 0 .timeout, .thread 0 .none, .thread 1 .none,
          .thread 1 .none, .thread 1 .none, .thread 1 .none, .thread 1 .none, .thread 1 .none,
          .thread 0 .none, .thread 0 .none] = some (w, es) ∧
      es.countP Event.isRan ≤ 1 ∧ w.waitDone = true := by
  have hrun : (run (step fun data => (data.length, true))
      (World.call ⟨true, true, false, []⟩ ⟨true, true, true, true⟩ (.callMethodBlocking 5) {} 0)
      [.thread 0 (.found true), .thread 0 (.generated [49]), .thread 0 (.serialized true),
        .thread 0 .none, .thread 0 .none, .thread 0 .none, .thread 0 .none, .thread 0 .none,
        .thread 0 .none, .responseArrives 1 (.tinyPB { msgId := [49], pbData := [7, 7] }),
        .thread 1 .none, .thread 0 .timeout, .thread 0 .none, .thread 1 .none,
        .thread 1 .none, .thread 1 .none, .thread 1 .none, .thread 1 .none, .thread 1 .none,
        .thread 0 .none, .thread 0 .none]).map (fun r => decide (.returned (-1) ∈ r.2)) =
      some true := by
    decide +kernel
  obtain ⟨⟨w, es⟩, hw, heq⟩ := Option.map_eq_some_iff.mp hrun
  obtain ⟨hran, -, -, -, -, hwait⟩ := call_completes_once _ _ _ _ _ _ _ w es (by rfl) hw
  exact ⟨w, es, hw, hran, hwait 5 (-1) rfl (of_decide_eq_true heq)⟩

end RocketRpc.Rpc
