import RocketRpc.Rpc.FinisherWrites

/-
  The calls of an `RpcChannel` that share one `TcpClient` of a pool.

  Each call is a `World` of its own. What they share is `m_read_callbacks`, where a call is
  found by its message id alone, and the connection, over which every request that was sent
  has at most one response on its way back. A call writes to the table in `readMessage` and
  `cancelRead`, and the table gives a response to the call that it finds there. `Advance` says
  once what a step of one call does to all this.
-/

namespace RocketRpc.Rpc

open Machine World RocketRpc.Tcp RocketRpc.Coder

variable {Message : Type} {parse : Bytes → Message × Bool}

/-! ## One call and the table -/

/-- How far a call has come with its request. -/
inductive SendPhase where
  /-- It has not registered its read callback. -/
  | before
  /-- It has, and may go on to send the request. -/
  | sending
  | past
  deriving DecidableEq, Repr

def Op.phase : Op Message → SendPhase
  | .recheckFinished | .send => .sending
  | .finishRpc _ | .waitFor | .wait | .ret _ => .past
  | _ => .before

def phaseOf : List (Op Message) → SendPhase
  | [] => .past
  | op :: _ => op.phase

def World.phase (w : World Message) : SendPhase := phaseOf (w.threads caller).code

/-- What a step does besides: to the table under the message id of the call, or over the
    connection. -/
inductive Use where
  | none
  | register
  | cancel
  | send
  deriving DecidableEq, Repr

/-- The use of the client in the next step of a thread. -/
def World.useOf (w : World Message) : Thread Message → Use
  | ⟨.some (_, .cancelRead), _⟩ =>
    if w.state.client && !w.state.msgId.isEmpty then .cancel else .none
  | ⟨.none, .readMessage :: _⟩ => .register
  | ⟨.none, .recheckFinished :: _⟩ => if w.state.finished then .cancel else .none
  | ⟨.none, .send :: _⟩ => .send
  | _ => .none

def World.use (w : World Message) : Label → Use
  | .thread t _ => w.useOf (w.threads t)
  | _ => .none

/-- The step is of the call itself, and not a response or a loss of its callback. -/
def Label.own : Label → Bool
  | .responseArrives _ _ | .readReplaced => false
  | _ => true

/-- A call over a client that is connected: only its caller's thread sends. -/
structure Pooled (w : World Message) : Prop where
  pool : w.channel.pool = true
  connecting : w.client.connecting = false
  others : ∀ t, t ≠ caller → ∀ op ∈ (w.threads t).code, op.phase = .past
  tail : ∀ op ∈ (w.threads caller).code.tail, op.phase = .past

/-- Thread `t` is about to finish the call with a response. -/
def World.Answering (w : World Message) (t : ThreadId) (msg : AbstractProtocol) : Prop :=
  .finishRpc (.response msg) ∈ (w.threads t).code

/-- The flag of the read callback after a step with this use of the client. -/
def Use.callback (before : Bool) : Use → Bool
  | .register => true
  | .cancel => false
  | _ => before

/-- The phases before and after a step with a use of the client. -/
inductive SendPhase.Next : Use → SendPhase → SendPhase → Prop where
  | same {use p} (huse : use = .none ∨ use = .cancel) : Next use p p
  | leave {use p} (huse : use = .none ∨ use = .cancel) : Next use p .past
  | register : Next .register .before .sending
  | send : Next .send .sending .past

/-- What a step of a call does, as far as its request and its response are concerned. -/
structure Advance (w w' : World Message) (use : Use) (es : List (Event Message)) : Prop where
  pooled : Pooled w'
  phase : SendPhase.Next use w.phase w'.phase
  msgId : w'.state.msgId = w.state.msgId ∨ w.phase = .before ∧ use = .none
  callback : w'.client.readCallback = use.callback w.client.readCallback
  answering : ∀ t msg, w'.Answering t msg → w.Answering t msg
  won : ∀ t msg, .won t (.response msg) ∈ es → w.Answering t msg

/-- The part of the call that a step keeps when it only moves a thread. -/
structure SameCall (w w₁ : World Message) : Prop where
  threads : w₁.threads = w.threads
  pool : w₁.channel.pool = w.channel.pool
  connecting : w₁.client.connecting = w.client.connecting

/-- An operation is replaced by `next`, with a use of the client. -/
inductive Op.Turns : Op Message → Use → List (Op Message) → Prop where
  | goesOn {op x} (hop : op.phase = .before) (hx : x.phase = .before) : Turns op .none [x]
  | leaves {op} {next : List (Op Message)} (hpast : ∀ x ∈ next, x.phase = .past)
      (hnext : ∀ msg, .finishRpc (.response msg) ∉ next) : Turns op .none next
  | register : Turns .readMessage .register [.recheckFinished]
  | sends : Turns .recheckFinished .none [.send]
  | cancel : Turns .recheckFinished .cancel []
  | send : Turns .send .send []

namespace Op.Turns

variable {op : Op Message} {use : Use} {next : List (Op Message)}

theorem past (h : op.Turns use next) (hop : op.phase = .past) : ∀ x ∈ next, x.phase = .past := by
  cases h with
  | goesOn hb => exact absurd (hb.symm.trans hop) (by decide)
  | leaves hpast => exact hpast
  | register | sends | cancel | send => exact absurd hop (by simp [Op.phase])

theorem use_of_past (h : op.Turns use next) (hop : op.phase = .past) : use = .none := by
  cases h with
  | goesOn | leaves | sends => rfl
  | register | cancel | send => exact absurd hop (by simp [Op.phase])

theorem tail (h : op.Turns use next) : ∀ x ∈ next.tail, x.phase = .past := by
  cases h with
  | leaves hpast => exact fun x hx => hpast x (List.mem_of_mem_tail hx)
  | goesOn | register | sends | cancel | send => simp

theorem answer (h : op.Turns use next) (msg : AbstractProtocol) :
    .finishRpc (.response msg) ∉ next := by
  cases h with
  | goesOn hop hx =>
    intro hmem
    obtain rfl := List.mem_singleton.mp hmem
    exact absurd hx (by simp [Op.phase])
  | leaves hpast hnext => exact hnext msg
  | register | sends | cancel | send => simp

/-- The phase of the thread that has replaced its first operation. -/
theorem phase (h : op.Turns use next) {rest : List (Op Message)}
    (hrest : ∀ x ∈ rest, x.phase = .past) :
    SendPhase.Next use op.phase (phaseOf (next ++ rest)) := by
  have hleft : (∀ x ∈ next, x.phase = .past) → phaseOf (next ++ rest) = .past := by
    intro hpast
    cases hnr : next ++ rest with
    | nil => rfl
    | cons y ys => exact (List.mem_append.mp (hnr ▸ List.mem_cons_self)).elim (hpast y) (hrest y)
  cases h with
  | goesOn hop hx =>
    rw [hop, List.singleton_append, phaseOf, hx]
    exact .same (Or.inl rfl)
  | leaves hpast =>
    rw [hleft hpast]
    exact .leave (Or.inl rfl)
  | register => exact .register
  | sends => exact .same (Or.inl rfl)
  | cancel =>
    rw [hleft (by simp)]
    exact .leave (Or.inr rfl)
  | send =>
    rw [hleft (by simp)]
    exact .send

end Op.Turns

/-- What is behind the first operation of a thread, where the caller's thread is different from the
    others in its first operation only. -/
theorem mem_behind_first {w : World Message} {P : Op Message → Prop} {t : ThreadId}
    {op : Op Message} {rest : List (Op Message)} (hcode : (w.threads t).code = op :: rest)
    (hothers : ∀ u, u ≠ caller → ∀ x ∈ (w.threads u).code, P x)
    (htail : ∀ x ∈ (w.threads caller).code.tail, P x) : ∀ x ∈ rest, P x := by
  intro x hx
  by_cases ht : t = caller
  · refine htail x ?_
    rw [← ht, hcode]
    exact hx
  · refine hothers t ht x ?_
    rw [hcode]
    exact List.mem_cons_of_mem op hx

/-- A thread outside of `finishRpc` replaces its first operation by `next`. -/
theorem Pooled.replace {w w₁ : World Message} {t : ThreadId} {op : Op Message}
    {rest next : List (Op Message)} {finishing : Option (Finisher × Stage Message)} {use : Use}
    {es : List (Event Message)} (h : Pooled w) (hat : w.threads t = ⟨none, op :: rest⟩)
    (hsame : SameCall w w₁) (hturns : op.Turns use next)
    (hmsgId : w₁.state.msgId = w.state.msgId ∨ op = .serialize)
    (hcallback : w₁.client.readCallback = use.callback w.client.readCallback)
    (hwon : ∀ u msg, .won u (.response msg) ∈ es → u = t ∧ op = .finishRpc (.response msg)) :
    Advance w (w₁.setThread t ⟨finishing, next ++ rest⟩) use es := by
  have hthreads : ∀ u, (w₁.setThread t ⟨finishing, next ++ rest⟩).threads u =
      if u = t then ⟨finishing, next ++ rest⟩ else w.threads u := by
    intro u
    rw [threads_setThread, hsame.threads]
  have hcode : (w.threads t).code = op :: rest := by rw [hat]
  -- only the caller's thread has an operation with a phase, and it is its first
  have hcaller : op.phase ≠ .past → t = caller := by
    intro hop
    by_contra ht
    exact hop (h.others t ht op (by simp [hcode]))
  have hrest := mem_behind_first hcode h.others h.tail
  have hphase : t = caller → w.phase = op.phase := by
    rintro rfl
    rw [World.phase, hcode]
    rfl
  refine ⟨⟨hsame.pool.trans h.pool, hsame.connecting.trans h.connecting, ?_, ?_⟩, ?_,
    hmsgId.imp_right ?_, hcallback, ?_, ?_⟩
  · intro u hu x hx
    rw [hthreads] at hx
    split at hx
    · rename_i hut
      subst hut
      refine (List.mem_append.mp hx).elim ?_ (hrest x)
      exact hturns.past (h.others u hu op (by simp [hcode])) x
    · exact h.others u hu x hx
  · intro x hx
    rw [hthreads] at hx
    split at hx
    · cases next with
      | nil => exact hrest x (List.mem_of_mem_tail hx)
      | cons y ys => exact (List.mem_append.mp hx).elim (hturns.tail x) (hrest x)
    · exact h.tail x hx
  · by_cases ht : t = caller
    · rw [hphase ht, World.phase, hthreads, if_pos ht.symm]
      exact hturns.phase hrest
    · have hop : op.phase = .past := by
        by_contra hop
        exact ht (hcaller hop)
      have hkept : (w₁.setThread t ⟨finishing, next ++ rest⟩).phase = w.phase := by
        rw [World.phase, hthreads, if_neg (Ne.symm ht)]
        rfl
      rw [hkept, hturns.use_of_past hop]
      exact .same (Or.inl rfl)
  · rintro rfl
    refine ⟨hphase (hcaller (by simp [Op.phase])), ?_⟩
    cases hturns with
    | goesOn | leaves => rfl
  · intro u msg hu
    rw [World.Answering, hthreads] at hu
    split at hu
    · rename_i hut
      subst hut
      rw [World.Answering, hcode]
      exact List.mem_cons_of_mem _ ((List.mem_append.mp hu).resolve_left (hturns.answer msg))
    · exact hu
  · intro u msg hu
    obtain ⟨rfl, rfl⟩ := hwon u msg hu
    rw [World.Answering, hcode]
    exact List.mem_cons_self

theorem exec_advance {w w' : World Message} {t : ThreadId} {rest : List (Op Message)}
    {op : Op Message} {input : Input} {es : List (Event Message)} (h : Pooled w)
    (hat : w.threads t = ⟨none, op :: rest⟩) (hexec : w.exec t rest op input = some (w', es)) :
    Advance w w' (w.useOf ⟨none, op :: rest⟩) es := by
  -- an operation is replaced by another one, or done
  have next : ∀ {w₁ : World Message} {x : Op Message} {use : Use}, SameCall w w₁ →
      op.Turns use [x] → (w₁.state.msgId = w.state.msgId ∨ op = .serialize) →
      w₁.client.readCallback = use.callback w.client.readCallback →
      Advance w (w₁.goOn t (x :: rest)) use [] := by
    intro w₁ x use hsame hturns hmsgId hcallback
    exact h.replace hat hsame hturns hmsgId hcallback (by simp)
  have done : ∀ {w₁ : World Message} {finishing : Option (Finisher × Stage Message)}
      {es₁ : List (Event Message)} {use : Use}, SameCall w w₁ → op.Turns use [] →
      w₁.state.msgId = w.state.msgId →
      w₁.client.readCallback = use.callback w.client.readCallback →
      (∀ u msg, .won u (.response msg) ∈ es₁ → u = t ∧ op = .finishRpc (.response msg)) →
      Advance w (w₁.setThread t ⟨finishing, rest⟩) use es₁ := by
    intro w₁ finishing es₁ use hsame hturns hmsgId hcallback hwon
    exact h.replace hat hsame hturns (Or.inl hmsgId) hcallback hwon
  have leaves : ∀ {x : Op Message}, x.phase = .past → (∀ msg, x ≠ .finishRpc (.response msg)) →
      op.Turns .none [x] := by
    intro x hx hanswer
    refine .leaves (by simpa using hx) fun msg hmem => ?_
    exact hanswer msg (List.mem_singleton.mp hmem).symm
  have gone : op.Turns .none [] := .leaves (by simp) (by simp)
  have hdoes := does_of_exec hexec
  cases hdoes with
  | acquired | setMsgId | addTimer | pooled | connected | checked =>
    exact next ⟨rfl, rfl, rfl⟩ (.goesOn rfl rfl) (Or.inl rfl) rfl
  | serialized => exact next ⟨rfl, rfl, rfl⟩ (.goesOn rfl rfl) (Or.inr rfl) rfl
  | connects hpool => exact absurd (h.pool.symm.trans hpool) (by simp)
  | readMessage => exact next ⟨rfl, rfl, rfl⟩ .register (Or.inl rfl) rfl
  | rechecked hopen =>
    rw [World.useOf, if_neg (by simp [hopen])]
    exact next ⟨rfl, rfl, rfl⟩ .sends (Or.inl rfl) rfl
  | cancels hfinished =>
    rw [World.useOf, if_pos hfinished]
    exact done ⟨rfl, rfl, rfl⟩ .cancel rfl rfl (by simp)
  | send => exact done ⟨rfl, rfl, rfl⟩ .send rfl rfl (by simp)
  | notAcquired | notSerialized | notConnected | waits | woken =>
    exact next ⟨rfl, rfl, rfl⟩ (leaves rfl (by simp)) (Or.inl rfl) rfl
  | tooLate | lost | waited | returned => exact done ⟨rfl, rfl, rfl⟩ gone rfl rfl (by simp)
  | won =>
    refine done ⟨rfl, rfl, rfl⟩ gone rfl rfl fun u msg hu => ?_
    obtain ⟨rfl, hf⟩ : u = t ∧ Finisher.response msg = _ := by simpa using hu
    exact ⟨rfl, by rw [hf]⟩
  | timedOut =>
    have hturns : (Op.waitFor : Op Message).Turns .none [.finishRpc .localTimeout, .ret true] :=
      .leaves (by simp [Op.phase]) (by simp)
    exact h.replace hat ⟨rfl, rfl, rfl⟩ hturns (Or.inl rfl) rfl (by simp)

/-- A thread goes on inside `finishRpc`, or starts a callback. -/
theorem Pooled.quiet {w w₁ : World Message} {t : ThreadId} (thread : Thread Message)
    (h : Pooled w) (hsame : SameCall w w₁)
    (hcode : thread.code = (w.threads t).code ∨
      (w.threads t).code = [] ∧ ∃ f, thread.code = [.finishRpc f]) :
    Pooled (w₁.setThread t thread) ∧ (w₁.setThread t thread).phase = w.phase := by
  have hthreads : ∀ u, (w₁.setThread t thread).threads u =
      if u = t then thread else w.threads u := by
    intro u
    rw [threads_setThread, hsame.threads]
  refine ⟨⟨hsame.pool.trans h.pool, hsame.connecting.trans h.connecting, ?_, ?_⟩, ?_⟩
  · intro u hu x hx
    rw [hthreads] at hx
    split at hx
    · rename_i hut
      subst hut
      rcases hcode with heq | ⟨-, f, heq⟩
      · exact h.others u hu x (heq ▸ hx)
      · obtain rfl : x = .finishRpc f := by simpa [heq] using hx
        rfl
    · exact h.others u hu x hx
  · intro x hx
    rw [hthreads] at hx
    split at hx
    · rename_i hut
      subst hut
      rcases hcode with heq | ⟨-, f, heq⟩
      · exact h.tail x (heq ▸ hx)
      · exact absurd hx (by simp [heq])
    · exact h.tail x hx
  · rw [World.phase, hthreads, World.phase]
    split
    · rename_i hut
      subst hut
      rcases hcode with heq | ⟨hnil, f, heq⟩
      · rw [heq]
      · rw [heq, hnil]
        rfl
    · rfl

theorem finish_advance {w : World Message} {t : ThreadId} {f : Finisher} {stage : Stage Message}
    {code : List (Op Message)} (h : Pooled w) (hat : w.threads t = ⟨some (f, stage), code⟩) :
    Advance w (w.finish parse t f code stage).1 (w.useOf ⟨some (f, stage), code⟩)
      (w.finish parse t f code stage).2 := by
  have hcode : (w.threads t).code = code := by rw [hat]
  have next : ∀ {w₁ : World Message} {finishing : Option (Finisher × Stage Message)} {use : Use}
      {es : List (Event Message)}, SameCall w w₁ → w₁.state.msgId = w.state.msgId →
      w₁.client.readCallback = use.callback w.client.readCallback → use = .none ∨ use = .cancel →
      (∀ u g, .won u g ∉ es) → Advance w (w₁.setThread t ⟨finishing, code⟩) use es := by
    intro w₁ finishing use es hsame hmsgId hcallback huse hwon
    obtain ⟨hpooled, hphase⟩ := h.quiet ⟨finishing, code⟩ hsame (Or.inl hcode.symm)
    refine ⟨hpooled, hphase ▸ .same huse, Or.inl hmsgId, hcallback, ?_, ?_⟩
    · intro u msg hu
      rw [World.Answering, threads_setThread, hsame.threads] at hu
      split at hu
      · rename_i hut
        rw [World.Answering, hut, hcode]
        exact hu
      · exact hu
    · exact fun u msg hu => absurd hu (hwon u _)
  cases stage with
  | dropTimer =>
    simp only [finish]
    split
    · exact next ⟨rfl, rfl, rfl⟩ rfl rfl (Or.inl rfl) (by simp)
    · exact next ⟨rfl, rfl, rfl⟩ rfl rfl (Or.inl rfl) (by simp)
  | cancelRead =>
    simp only [finish, World.useOf]
    split
    · exact next ⟨rfl, rfl, rfl⟩ rfl rfl (Or.inr rfl) (by simp)
    · exact next ⟨rfl, rfl, rfl⟩ rfl rfl (Or.inl rfl) (by simp)
  | beforeDone => exact next ⟨rfl, rfl, rfl⟩ rfl rfl (Or.inl rfl) (by simp [finish])
  | writing writes =>
    cases writes with
    | nil => exact next ⟨rfl, rfl, rfl⟩ rfl rfl (Or.inl rfl) (by simp [finish])
    | cons x xs =>
      have hsame : SameCall w (w.write x) := by cases x <;> exact ⟨rfl, rfl, rfl⟩
      have hmsgId : (w.write x).state.msgId = w.state.msgId := by cases x <;> rfl
      have hclient : (w.write x).client = w.client := by cases x <;> rfl
      exact next hsame hmsgId (by rw [hclient]; rfl) (Or.inl rfl) (by simp [finish])
  | runDone =>
    simp only [finish]
    split
    · exact next ⟨rfl, rfl, rfl⟩ rfl rfl (Or.inl rfl) (by simp)
    · exact next ⟨rfl, rfl, rfl⟩ rfl rfl (Or.inl rfl) (by simp)
    · have hsame : SameCall w { w with waitDone := true } := ⟨rfl, rfl, rfl⟩
      exact next hsame rfl rfl (Or.inl rfl) (by simp)

/-- What one step of a call does. -/
theorem step_advance {w w' : World Message} {l : Label} {es : List (Event Message)}
    (h : Pooled w) (hown : l.own = true) (hstep : step parse w l = some (w', es)) :
    Advance w w' (w.use l) es := by
  have hmoves := callMoves_of_step hstep
  cases hmoves with
  | finishes hat =>
    rw [World.use, hat]
    exact finish_advance h hat
  | execs hat hexec =>
    rw [World.use, hat]
    exact exec_advance h hat hexec
  | timerFires harmed hat =>
    rename_i t
    have hnil : (w.threads t).code = [] := by rw [hat]
    have hsame : SameCall w { w with armed := false } := ⟨rfl, rfl, rfl⟩
    obtain ⟨hpooled, hphase⟩ := h.quiet ⟨none, [.finishRpc .timer]⟩ hsame
      (Or.inr ⟨hnil, .timer, rfl⟩)
    refine ⟨hpooled, hphase ▸ .same (Or.inl rfl), Or.inl rfl, rfl, ?_, by simp⟩
    intro u msg hu
    rw [World.Answering, goOn, threads_setThread] at hu
    split at hu
    · exact absurd hu (by simp)
    · exact hu
  | connectReturns hconnecting => exact absurd (h.connecting.symm.trans hconnecting) (by simp)
  | responseArrives | readReplaced => exact absurd hown (by simp [Label.own])

/-- The table gives a response to a call. -/
theorem step_arrival {w w' : World Message} {t : ThreadId} {msg : AbstractProtocol}
    {es : List (Event Message)} (h : Pooled w)
    (hstep : step parse w (.responseArrives t msg) = some (w', es)) :
    Pooled w' ∧ w'.phase = w.phase ∧ w'.state = w.state ∧ w'.client.readCallback = false ∧
      es = [] ∧ ∀ u m, w'.Answering u m → w.Answering u m ∨ u = t ∧ m = msg := by
  have hmoves := callMoves_of_step hstep
  cases hmoves with
  | responseArrives _ hat =>
    have hnil : (w.threads t).code = [] := by rw [hat]
    have hsame : SameCall w { w with client := { w.client with readCallback := false } } :=
      ⟨rfl, rfl, rfl⟩
    obtain ⟨hpooled, hphase⟩ := h.quiet ⟨none, [.finishRpc (.response msg)]⟩ hsame
      (Or.inr ⟨hnil, .response msg, rfl⟩)
    refine ⟨hpooled, hphase, rfl, rfl, rfl, fun u m hu => ?_⟩
    rw [World.Answering, goOn, threads_setThread] at hu
    split at hu
    · rename_i hut
      obtain rfl : m = msg := by simpa using hu
      exact Or.inr ⟨hut, rfl⟩
    · exact Or.inl hu

theorem call_pooled {channel : RpcChannel} (args : Arguments) (call : Call)
    (controller : RpcController) (response : Message) (hpool : channel.pool = true) :
    Pooled (World.call channel args call controller response) ∧
      (World.call channel args call controller response).phase ≠ .sending ∧
      ∀ t msg, ¬ (World.call channel args call controller response).Answering t msg := by
  -- the code of the caller's thread, and of no other
  have hcall : ∃ (w : World Message) (code : List (Op Message)),
      World.call channel args call controller response = w.goOn caller code ∧
        w.channel.pool = true ∧ w.client.connecting = false ∧ w.threads = (fun _ => {}) ∧
        (code = .acquire :: call.code ∨ code = call.code) := by
    rw [World.call]
    split
    · exact ⟨_, _, rfl, hpool, rfl, rfl, Or.inl rfl⟩
    · rw [World.refused]
      split
      · exact ⟨_, _, rfl, hpool, rfl, rfl, Or.inr rfl⟩
      · exact ⟨_, _, rfl, hpool, rfl, rfl, Or.inr rfl⟩
  obtain ⟨w, code, heq, hw, hconnecting, hthreads, hcode⟩ := hcall
  have hops : ∀ op ∈ (call.code : List (Op Message)), op.phase = .past ∧
      ∀ msg, op ≠ .finishRpc (.response msg) := by
    cases call <;> simp [Call.code, Op.phase]
  have hat : ∀ t, (w.goOn caller code).threads t = if t = caller then ⟨none, code⟩ else {} := by
    intro t
    rw [goOn, threads_setThread, hthreads]
  rw [heq]
  refine ⟨⟨hw, hconnecting, ?_, ?_⟩, ?_, ?_⟩
  · intro t ht op hop
    rw [hat, if_neg ht] at hop
    exact absurd hop (by simp)
  · intro op hop
    rw [hat, if_pos rfl] at hop
    rcases hcode with rfl | rfl
    · exact (hops op hop).1
    · exact (hops op (List.mem_of_mem_tail hop)).1
  · rw [World.phase, hat, if_pos rfl]
    rcases hcode with rfl | rfl
    · simp [phaseOf, Op.phase]
    · cases call <;> simp [Call.code, phaseOf, Op.phase]
  · intro t msg hmem
    rw [World.Answering, hat] at hmem
    split at hmem
    · rcases hcode with rfl | rfl
      · refine (hops _ ((List.mem_cons.mp hmem).resolve_left (by simp))).2 msg rfl
      · exact (hops _ hmem).2 msg rfl
    · exact absurd hmem (by simp)

/-! ## The calls of one client -/

/-- The callback of the call is no longer in `m_read_callbacks`. -/
def World.dropRead (w : World Message) : World Message :=
  { w with client := { w.client with readCallback := false } }

structure SharedClient (Message : Type) where
  calls : Nat → Option (World Message) := fun _ => none
  /-- `m_read_callbacks`, with the call that each callback is of. -/
  readCallbacks : Bytes → Option Nat := fun _ => none
  /-- The request was sent, and its response is still to come, or lost. -/
  awaited : Nat → Bool := fun _ => false

inductive SharedLabel (Message : Type) where
  /-- A call begins. Its controller is as the caller gives it: new, with a message id set, or
      left over from an earlier call. -/
  | begins (k : Nat) (channel : RpcChannel) (args : Arguments) (call : Call)
      (controller : RpcController) (response : Message)
  | call (k : Nat) (l : Label)
  /-- The response to the request of call `k` arrives; thread `t` runs the callback. -/
  | arrives (k : Nat) (t : ThreadId) (msg : TinyPBProtocol)
  | lost (k : Nat)
  /-- `TcpClient::stop` clears the table. -/
  | stops

inductive SharedEvent (Message : Type) where
  | call (k : Nat) (e : Event Message)
  /-- The response to call `k` is given to the callback of call `j`. -/
  | delivered (k j : Nat) (t : ThreadId) (msg : TinyPBProtocol)
  /-- Call `k` takes the entry of call `j` in the table; whether call `j` was finished. -/
  | displaced (j k : Nat) (finished : Bool)
  deriving DecidableEq

namespace SharedClient

def setCall (s : SharedClient Message) (k : Nat) (w : World Message) : SharedClient Message :=
  { s with calls := Function.update s.calls k (some w) }

/-- The entry of `id` is set or erased; another call that had it loses its callback. -/
def setEntry (s : SharedClient Message) (k : Nat) (id : Bytes) (entry : Option Nat) :
    SharedClient Message :=
  { s with
    calls := fun j =>
      if s.readCallbacks id = some j ∧ j ≠ k then (s.calls j).map World.dropRead else s.calls j
    readCallbacks := Function.update s.readCallbacks id entry }

/-- What a step of call `k` does to the client. -/
def does (s : SharedClient Message) (k : Nat) (id : Bytes) : Use → SharedClient Message
  | .none => s
  | .register => s.setEntry k id (some k)
  | .cancel => s.setEntry k id none
  | .send => { s with awaited := Function.update s.awaited k true }

/-- The entry that a registration takes from another call. -/
def displaces (s : SharedClient Message) (k : Nat) (id : Bytes) :
    Use → List (SharedEvent Message)
  | .register =>
    match s.readCallbacks id with
    | some j =>
      if j = k then [] else [.displaced j k ((s.calls j).any fun v => v.state.finished)]
    | none => []
  | _ => []

def step (parse : Bytes → Message × Bool) (s : SharedClient Message) :
    SharedLabel Message → Option (SharedClient Message × List (SharedEvent Message))
  | .begins k channel args call controller response =>
    if (s.calls k).isNone then
      some (s.setCall k
        (World.call { channel with pool := true } args call controller response), [])
    else none
  | .call k l =>
    match s.calls k with
    | some w =>
      if l.own then
        (w.step parse l).map fun (w', es) =>
          ((s.setCall k w').does k w.state.msgId (w.use l),
            es.map (.call k) ++ s.displaces k w.state.msgId (w.use l))
      else none
    | none => none
  | .arrives k t msg =>
    match s.calls k with
    | some w =>
      if s.awaited k ∧ w.state.msgId = msg.msgId then
        let s' := { s with awaited := Function.update s.awaited k false }
        match s.readCallbacks msg.msgId with
        | some j =>
          match s.calls j with
          | some v =>
            (v.step parse (.responseArrives t (.tinyPB msg))).map fun (v', _) =>
              (({ s' with
                  readCallbacks := Function.update s.readCallbacks msg.msgId none }).setCall j v',
                [.delivered k j t msg])
          | none => none
        | none => some (s', [])
      else none
    | none => none
  | .lost k =>
    if s.awaited k then
      some ({ s with awaited := Function.update s.awaited k false }, [])
    else none
  | .stops =>
    some ({ s with
      calls := fun j => (s.calls j).map World.dropRead
      readCallbacks := fun _ => none }, [])

/-- The message id is in use by call `j`: its read callback is registered and it is not
    finished, or it is about to send its request, or the response to it may still come. -/
def InUse (s : SharedClient Message) (id : Bytes) (j : Nat) : Prop :=
  ∃ w, s.calls j = some w ∧ w.state.msgId = id ∧
    (s.readCallbacks id = some j ∧ w.state.finished = false ∨ w.phase = .sending ∨
      s.awaited j = true)

/-- A call registers its read callback under an id that no other call uses. -/
def FreshId (s : SharedClient Message) : SharedLabel Message → Prop
  | .call k l => ∀ w, s.calls k = some w → w.use l = .register →
      ∀ j, j ≠ k → ¬ s.InUse w.state.msgId j
  | _ => True

end SharedClient

end RocketRpc.Rpc
