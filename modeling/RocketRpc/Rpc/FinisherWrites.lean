import RocketRpc.Rpc.CompletionGate

/-
  What the winner of a call writes.

  `Due` says what a finisher owes the caller's objects. The writes of a run are, as far as
  the winner is, exactly these (`Wrote`, kept by every step: `step_account`); so when the
  winner has left `finishRpc`, they are all there (`run_account`). A connection that failed
  has an error code (`Connects`), which is why the writes of its finisher report an error.
-/

namespace RocketRpc.Rpc

open Machine World

variable {Message : Type} {parse : Tcp.Bytes → Message × Bool}

/-! ## A failed connection has an error code -/

/-- The operations of `callMethodInternal` up to the start of the connection. -/
def Op.isEarly : Op Message → Bool
  | .acquire | .setMsgId | .serialize | .addTimer | .start => true
  | _ => false

/-- The callback of `connect`, and what it calls when the connection failed. -/
def Op.isConnect : Op Message → Bool
  | .connected | .finishRpc .connect => true
  | _ => false

namespace Thread

/-- The thread is in the callback of `connect`, or finishes the call for it. -/
def Connecting (thread : Thread Message) : Prop :=
  (∃ op ∈ thread.code, op.isConnect = true) ∨ ∃ s, thread.finishing = some (.connect, s)

/-- The thread finishes the call, or is about to, as the connection failed. -/
def Failing (thread : Thread Message) : Prop :=
  .finishRpc .connect ∈ thread.code ∨ ∃ s, thread.finishing = some (.connect, s)

theorem Failing.connecting {thread : Thread Message} (h : thread.Failing) : thread.Connecting :=
  h.imp_left fun hmem => ⟨_, hmem, rfl⟩

/-- The thread goes on without a part in the connection that it did not have. -/
structure Calm (thread thread' : Thread Message) : Prop where
  early : ∀ op ∈ thread'.code, op.isEarly = true → ∃ op ∈ thread.code, op.isEarly = true
  tail : (∀ op ∈ thread.code.tail, op.isEarly = false) →
    ∀ op ∈ thread'.code.tail, op.isEarly = false
  connecting : thread'.Connecting → thread.Connecting
  failing : thread'.Failing → thread.Failing

end Thread

/-- `connect` is called once, and its callback finishes the call only with an error code. -/
structure Connects (w : World Message) : Prop where
  caller : ∀ t, ∀ op ∈ (w.threads t).code, op.isEarly = true → t = caller
  tail : ∀ t, ∀ op ∈ (w.threads t).code.tail, op.isEarly = false
  started : w.client.connecting = true → ∀ t, ∀ op ∈ (w.threads t).code, op.isEarly = false
  pending : (w.client.connecting = true ∨ ∃ t, ∃ op ∈ (w.threads t).code, op.isEarly = true) →
    ∀ t, ¬ (w.threads t).Connecting
  failed : ∀ t, (w.threads t).Failing → w.client.connectErrorCode ≠ 0

theorem threads_setThread (w : World Message) (t u : ThreadId) (thread : Thread Message) :
    (w.setThread t thread).threads u = if u = t then thread else w.threads u :=
  Function.update_apply _ _ _ _

theorem calm_each {w w₁ : World Message} {t : ThreadId} {thread : Thread Message}
    (hthreads : w₁.threads = w.threads) (hcalm : (w.threads t).Calm thread) (u : ThreadId) :
    (w.threads u).Calm ((w₁.setThread t thread).threads u) := by
  rw [threads_setThread, hthreads]
  split
  · rename_i hut
    rw [hut]
    exact hcalm
  · exact ⟨fun op hop he => ⟨op, hop, he⟩, id, id, id⟩

theorem Connects.setThread {w w₁ : World Message} (h : Connects w) {t : ThreadId}
    {thread : Thread Message} (hthreads : w₁.threads = w.threads)
    (hconnecting : w₁.client.connecting = w.client.connecting)
    (hcode : w₁.client.connectErrorCode = w.client.connectErrorCode)
    (hcalm : (w.threads t).Calm thread) : Connects (w₁.setThread t thread) := by
  have heach := calm_each hthreads hcalm
  have hclient : (w₁.setThread t thread).client = w₁.client := rfl
  refine ⟨?_, fun u => (heach u).tail (h.tail u), ?_, ?_, ?_⟩
  · intro u op hop he
    obtain ⟨op', hop', he'⟩ := (heach u).early op hop he
    exact h.caller u op' hop' he'
  · rw [hclient, hconnecting]
    intro hc u op hop
    by_contra he
    obtain ⟨op', hop', he'⟩ := (heach u).early op hop (by simpa using he)
    exact absurd he' (by simp [h.started hc u op' hop'])
  · rw [hclient, hconnecting]
    intro hp u hu
    refine h.pending (hp.imp_right ?_) u ((heach u).connecting hu)
    rintro ⟨v, op, hop, he⟩
    exact ⟨v, (heach v).early op hop he⟩
  · rw [hclient, hcode]
    exact fun u hu => h.failed u ((heach u).failing hu)

/-- The first operation is replaced by one that has no other part in the connection. -/
theorem calm_cons {op x : Op Message} {rest : List (Op Message)}
    (hearly : x.isEarly = true → op.isEarly = true) (hconnect : x.isConnect = false) :
    Thread.Calm ⟨none, op :: rest⟩ ⟨none, x :: rest⟩ := by
  have hx : x ≠ .finishRpc .connect := by
    rintro rfl
    exact absurd hconnect (by simp [Op.isConnect])
  refine ⟨?_, id, ?_, ?_⟩
  · intro y hy he
    rcases List.mem_cons.mp hy with rfl | hy
    · exact ⟨op, by simp, hearly he⟩
    · exact ⟨y, by simp [hy], he⟩
  · rintro (⟨y, hy, hc⟩ | ⟨s, hs⟩)
    · rcases List.mem_cons.mp hy with rfl | hy
      · exact absurd hc (by simp [hconnect])
      · exact Or.inl ⟨y, by simp [hy], hc⟩
    · exact absurd hs (by simp)
  · rintro (hmem | ⟨s, hs⟩)
    · rcases List.mem_cons.mp hmem with heq | hmem
      · exact absurd heq.symm hx
      · exact Or.inl (List.mem_cons_of_mem _ hmem)
    · exact absurd hs (by simp)

/-- The first operation is done, and the thread is inside `finishRpc` only for it. -/
theorem calm_rest {op : Op Message} {rest : List (Op Message)}
    {finishing : Option (Finisher × Stage Message)}
    (hf : ∀ s, finishing = some (.connect, s) → op = .finishRpc .connect) :
    Thread.Calm ⟨none, op :: rest⟩ ⟨finishing, rest⟩ := by
  refine ⟨?_, ?_, ?_, ?_⟩
  · exact fun y hy he => ⟨y, List.mem_cons_of_mem _ hy, he⟩
  · exact fun ht y hy => ht y (List.mem_of_mem_tail hy)
  · rintro (⟨y, hy, hc⟩ | ⟨s, hs⟩)
    · exact Or.inl ⟨y, List.mem_cons_of_mem _ hy, hc⟩
    · exact Or.inl ⟨op, by simp, by rw [hf s hs]; rfl⟩
  · rintro (hmem | ⟨s, hs⟩)
    · exact Or.inl (List.mem_cons_of_mem _ hmem)
    · exact Or.inl (by simp [hf s hs])

/-- The wait of `CallMethodBlocking` times out. -/
theorem calm_timeout {rest : List (Op Message)} :
    Thread.Calm ⟨none, .waitFor :: rest⟩
      ⟨none, .finishRpc .localTimeout :: .ret true :: rest⟩ := by
  refine ⟨?_, ?_, ?_, ?_⟩
  · intro y hy he
    rcases List.mem_cons.mp hy with rfl | hy
    · exact absurd he (by simp [Op.isEarly])
    · rcases List.mem_cons.mp hy with rfl | hy
      · exact absurd he (by simp [Op.isEarly])
      · exact ⟨y, List.mem_cons_of_mem _ hy, he⟩
  · simp [Op.isEarly]
  · simp [Thread.Connecting, Op.isConnect]
  · simp [Thread.Failing]

/-- A callback that has no part in the connection starts on an idle thread. -/
theorem calm_spawn {x : Op Message} (hearly : x.isEarly = false) (hconnect : x.isConnect = false) :
    Thread.Calm ⟨none, []⟩ ⟨none, [x]⟩ := by
  have hx : x ≠ .finishRpc .connect := by
    rintro rfl
    exact absurd hconnect (by simp [Op.isConnect])
  refine ⟨?_, fun _ y hy => absurd hy (by simp), ?_, ?_⟩
  · intro y hy he
    obtain rfl : y = x := by simpa using hy
    exact absurd he (by simp [hearly])
  · rintro (⟨y, hy, hc⟩ | ⟨s, hs⟩)
    · obtain rfl : y = x := by simpa using hy
      exact absurd hc (by simp [hconnect])
    · exact absurd hs (by simp)
  · rintro (hmem | ⟨s, hs⟩)
    · exact absurd (by simpa using hmem) hx.symm
    · exact absurd hs (by simp)

/-- A finisher goes on, or leaves `finishRpc`. -/
theorem calm_finish {f : Finisher} {stage : Stage Message} {code : List (Op Message)}
    {finishing : Option (Finisher × Stage Message)} (hf : ∀ g s, finishing = some (g, s) → g = f) :
    Thread.Calm ⟨some (f, stage), code⟩ ⟨finishing, code⟩ := by
  refine ⟨fun y hy he => ⟨y, hy, he⟩, id, ?_, ?_⟩
  · exact Or.imp_right fun ⟨s, hs⟩ => ⟨stage, by rw [hf _ s hs]⟩
  · exact Or.imp_right fun ⟨s, hs⟩ => ⟨stage, by rw [hf _ s hs]⟩

/-- The start of the connection is the last of the early operations. -/
theorem Connects.start {w : World Message} (h : Connects w) {t : ThreadId}
    {rest : List (Op Message)} (hat : w.threads t = ⟨none, .start :: rest⟩) :
    Connects ({ w with client := { w.client with connecting := true } }.goOn t rest) := by
  have hcalm : (w.threads t).Calm ⟨none, rest⟩ := by
    rw [hat]
    exact calm_rest fun s hs => absurd hs (by simp)
  have hgo : Connects (w.goOn t rest) := h.setThread rfl rfl rfl hcalm
  have heach : ∀ u, (w.threads u).Calm ((w.goOn t rest).threads u) := calm_each rfl hcalm
  have hnone : ∀ u, ∀ op ∈ ((w.goOn t rest).threads u).code, op.isEarly = false := by
    intro u op hop
    by_contra he
    -- the early operation would be behind the start, on the same thread
    obtain rfl : u = t := (hgo.caller u op hop (by simpa using he)).trans
      (h.caller t .start (by simp [hat]) rfl).symm
    have htail := h.tail u
    rw [hat] at htail
    rw [World.goOn, threads_setThread, if_pos rfl] at hop
    exact he (htail op hop)
  have hquiet : ∀ u, ¬ ((w.goOn t rest).threads u).Connecting := fun u hu =>
    h.pending (Or.inr ⟨t, .start, by simp [hat], rfl⟩) u ((heach u).connecting hu)
  exact ⟨hgo.caller, hgo.tail, fun _ => hnone, fun _ => hquiet, hgo.failed⟩

/-- The callback of `connect` has an error code to report. -/
theorem Connects.connected {w : World Message} (h : Connects w) {t : ThreadId}
    {rest : List (Op Message)} (hat : w.threads t = ⟨none, .connected :: rest⟩)
    (hcode : w.client.connectErrorCode ≠ 0) :
    Connects (w.goOn t (.finishRpc .connect :: rest)) := by
  have hconnecting : (w.threads t).Connecting := Or.inl ⟨.connected, by simp [hat], rfl⟩
  have hpending : ¬ (w.client.connecting = true ∨
      ∃ t, ∃ op ∈ (w.threads t).code, op.isEarly = true) := fun hp =>
    h.pending hp t hconnecting
  have hthreads : ∀ u, ∀ op ∈ ((w.goOn t (.finishRpc .connect :: rest)).threads u).code,
      op.isEarly = true → False := by
    intro u op hop he
    rw [World.goOn, threads_setThread] at hop
    split at hop
    · rcases List.mem_cons.mp hop with rfl | hop
      · exact absurd he (by simp [Op.isEarly])
      · exact hpending (Or.inr ⟨t, op, by simp [hat, hop], he⟩)
    · exact hpending (Or.inr ⟨u, op, hop, he⟩)
  refine ⟨fun u op hop he => absurd he fun he => hthreads u op hop he, ?_, ?_, ?_,
    fun _ _ => hcode⟩
  · intro u op hop
    simpa using fun he => hthreads u op (List.mem_of_mem_tail hop) he
  · exact fun hc => absurd (Or.inl hc) hpending
  · rintro (hc | ⟨u, op, hop, he⟩)
    · exact absurd (Or.inl hc) hpending
    · exact absurd he fun he => hthreads u op hop he

/-- The connection calls back. -/
theorem Connects.returns {w : World Message} (h : Connects w) (t : ThreadId)
    (hconnecting : w.client.connecting = true)
    (errorCode : Int32) (errorInfo : Tcp.Bytes) :
    Connects ({ w with client := { w.client with
        connecting := false
        connectErrorCode := errorCode
        connectErrorInfo := errorInfo } }.goOn t [.connected]) := by
  have hthreads : ∀ u, ∀ op ∈ ((w.goOn t [.connected]).threads u).code, op.isEarly = false := by
    intro u op hop
    rw [World.goOn, threads_setThread] at hop
    split at hop
    · obtain rfl : op = .connected := by simpa using hop
      rfl
    · exact h.started hconnecting u op hop
  refine ⟨?_, ?_, fun _ => hthreads, ?_, ?_⟩
  · intro u op hop he
    exact absurd he (by simp [hthreads u op hop])
  · exact fun u op hop => hthreads u op (List.mem_of_mem_tail hop)
  · rintro (hc | ⟨u, op, hop, he⟩)
    · exact absurd hc (by simp [World.goOn, World.setThread])
    · exact absurd he (by simp [hthreads u op hop])
  · intro u hu
    refine absurd ?_ (h.pending (Or.inl hconnecting) u)
    rw [World.goOn, threads_setThread] at hu
    split at hu
    · rcases hu with hmem | ⟨s, hs⟩
      · exact absurd hmem (by simp)
      · exact absurd hs (by simp)
    · exact hu.connecting

theorem exec_connects {w w' : World Message} {t : ThreadId} {rest : List (Op Message)}
    {op : Op Message} {input : Input} {es : List (Event Message)} (h : Connects w)
    (hat : w.threads t = ⟨none, op :: rest⟩) (hexec : w.exec t rest op input = some (w', es)) :
    Connects w' := by
  -- most operations are replaced by the next one, or done
  have next : ∀ {w₁ : World Message} {x : Op Message}, w₁.threads = w.threads →
      w₁.client.connecting = w.client.connecting →
      w₁.client.connectErrorCode = w.client.connectErrorCode →
      (x.isEarly = true → op.isEarly = true) → x.isConnect = false →
      Connects (w₁.goOn t (x :: rest)) := by
    intro w₁ x hthreads hconnecting hcode hearly hconnect
    refine h.setThread hthreads hconnecting hcode ?_
    rw [hat]
    exact calm_cons hearly hconnect
  have done : ∀ {w₁ : World Message} {finishing : Option (Finisher × Stage Message)},
      w₁.threads = w.threads → w₁.client.connecting = w.client.connecting →
      w₁.client.connectErrorCode = w.client.connectErrorCode →
      (∀ s, finishing = some (.connect, s) → op = .finishRpc .connect) →
      Connects (w₁.setThread t ⟨finishing, rest⟩) := by
    intro w₁ finishing hthreads hconnecting hcode hf
    refine h.setThread hthreads hconnecting hcode ?_
    rw [hat]
    exact calm_rest hf
  have hdoes := does_of_exec hexec
  cases hdoes with
  | acquired | setMsgId | serialized | addTimer => exact next rfl rfl rfl id rfl
  | notAcquired | notSerialized | pooled | connected | checked | readMessage | rechecked | waits
  | woken => exact next rfl rfl rfl (fun he => absurd he (by simp [Op.isEarly])) rfl
  | connects => exact h.start hat
  | notConnected hcode => exact h.connected hat hcode
  | tooLate | cancels | send | lost | waited | returned =>
    exact done rfl rfl rfl fun s hs => absurd hs (by simp)
  | won hopen =>
    rename_i f
    refine done rfl rfl rfl fun s hs => ?_
    obtain ⟨rfl, -⟩ : f = .connect ∧ Stage.dropTimer = s := by simpa using hs
    rfl
  | timedOut =>
    refine h.setThread rfl rfl rfl ?_
    rw [hat]
    exact calm_timeout

theorem finish_connects {w : World Message} {t : ThreadId} {f : Finisher}
    {stage : Stage Message} {code : List (Op Message)} (h : Connects w)
    (hat : w.threads t = ⟨some (f, stage), code⟩) :
    Connects (w.finish parse t f code stage).1 := by
  have next : ∀ {w₁ : World Message} {finishing : Option (Finisher × Stage Message)},
      w₁.threads = w.threads → w₁.client.connecting = w.client.connecting →
      w₁.client.connectErrorCode = w.client.connectErrorCode →
      (∀ g s, finishing = some (g, s) → g = f) →
      Connects (w₁.setThread t ⟨finishing, code⟩) := by
    intro w₁ finishing hthreads hconnecting hcode hf
    refine h.setThread hthreads hconnecting hcode ?_
    rw [hat]
    exact calm_finish hf
  have same : ∀ {s' : Stage Message}, ∀ g s, some (f, s') = some (g, s) → g = f := by
    intro s' g s hs
    simp only [Option.some.injEq, Prod.mk.injEq] at hs
    exact hs.1.symm
  cases stage with
  | dropTimer | cancelRead =>
    simp only [finish]
    split
    · exact next rfl rfl rfl same
    · exact next rfl rfl rfl same
  | beforeDone => exact next rfl rfl rfl same
  | writing writes =>
    cases writes with
    | nil => exact next rfl rfl rfl same
    | cons x xs =>
      have hclient : (w.write x).client = w.client := by cases x <;> rfl
      exact next (sameGate_write w x).threads (by rw [hclient]) (by rw [hclient]) same
  | runDone =>
    simp only [finish]
    split
    · exact next rfl rfl rfl fun g s hs => absurd hs (by simp)
    · exact next rfl rfl rfl fun g s hs => absurd hs (by simp)
    · refine next ?_ ?_ ?_ fun g s hs => absurd hs (by simp)
      · rfl
      · rfl
      · rfl

/-- A thread goes on inside `finishRpc`, or does the next of its operations. -/
theorem step_thread {w w' : World Message} {t : ThreadId} {input : Input}
    {es : List (Event Message)} (h : step parse w (.thread t input) = some (w', es)) :
    (∃ f stage code, w.threads t = ⟨some (f, stage), code⟩ ∧ input = .none ∧
      w' = (w.finish parse t f code stage).1 ∧ es = (w.finish parse t f code stage).2) ∨
    ∃ op rest, w.threads t = ⟨none, op :: rest⟩ ∧ w.exec t rest op input = some (w', es) := by
  have hmoves := callMoves_of_step h
  cases hmoves with
  | finishes hat => exact Or.inl ⟨_, _, _, hat, rfl, rfl, rfl⟩
  | execs hat hexec => exact Or.inr ⟨_, _, hat, hexec⟩

theorem step_connects {w w' : World Message} {l : Label} {es : List (Event Message)}
    (h : Connects w) (hstep : step parse w l = some (w', es)) : Connects w' := by
  -- a callback of the timer or of the read table starts
  have spawn : ∀ {w₁ : World Message} {t : ThreadId} {f : Finisher}, w.threads t = ⟨none, []⟩ →
      w₁.threads = w.threads → w₁.client.connecting = w.client.connecting →
      w₁.client.connectErrorCode = w.client.connectErrorCode → f ≠ .connect →
      Connects (w₁.goOn t [.finishRpc f]) := by
    intro w₁ t f hat hthreads hconnecting hcode hf
    refine h.setThread hthreads hconnecting hcode ?_
    rw [hat]
    refine calm_spawn rfl ?_
    cases f with
    | connect => exact absurd rfl hf
    | _ => rfl
  have hmoves := callMoves_of_step hstep
  cases hmoves with
  | finishes hat => exact finish_connects h hat
  | execs hat hexec => exact exec_connects h hat hexec
  | timerFires _ hat | responseArrives _ hat => exact spawn hat rfl rfl rfl (by simp)
  | connectReturns hconnecting => exact h.returns _ hconnecting _ _
  | readReplaced => exact ⟨h.caller, h.tail, h.started, h.pending, h.failed⟩

theorem call_threads (channel : RpcChannel) {args : Arguments} (call : Call)
    (controller : RpcController) (response : Message) (hargs : args.passes = true) (t : ThreadId) :
    (World.call channel args call controller response).threads t =
      if t = caller then ⟨none, .acquire :: call.code⟩ else {} := by
  rw [World.call, if_pos hargs, goOn, threads_setThread]

theorem call_client (channel : RpcChannel) {args : Arguments} (call : Call)
    (controller : RpcController) (response : Message) (hargs : args.passes = true) :
    (World.call channel args call controller response).client = {} := by
  rw [World.call, if_pos hargs]
  rfl

theorem call_connects (channel : RpcChannel) {args : Arguments} (call : Call)
    (controller : RpcController) (response : Message) (hargs : args.passes = true) :
    Connects (World.call channel args call controller response) := by
  have hthreads := call_threads channel call controller response hargs
  have hcode : ∀ op ∈ (call.code : List (Op Message)),
      op.isEarly = false ∧ op.isConnect = false := by
    cases call <;> simp [Call.code, Op.isEarly, Op.isConnect]
  have hquiet : ∀ t,
      ¬ ((World.call channel args call controller response).threads t).Connecting := by
    intro t
    rw [hthreads]
    split
    · rintro (⟨op, hop, hc⟩ | ⟨s, hs⟩)
      · rcases List.mem_cons.mp hop with rfl | hop
        · exact absurd hc (by simp [Op.isConnect])
        · exact absurd hc (by simp [(hcode op hop).2])
      · exact absurd hs (by simp)
    · rintro (⟨op, hop, hc⟩ | ⟨s, hs⟩)
      · exact absurd hop (by simp)
      · exact absurd hs (by simp)
  refine ⟨?_, ?_, ?_, fun _ => hquiet, fun t ht => absurd ht.connecting (hquiet t)⟩
  · intro t op hop _
    rw [hthreads] at hop
    split at hop
    · assumption
    · exact absurd hop (by simp)
  · intro t op hop
    rw [hthreads] at hop
    split at hop
    · exact (hcode op hop).1
    · exact absurd hop (by simp)
  · intro hc
    rw [call_client channel call controller response hargs] at hc
    exact absurd hc (by simp)

/-! ## What the winner has written -/

/-- The write an event is, and who did it. -/
def Event.wroteBy : Event Message → Option (ThreadId × Finisher × Write Message)
  | .wrote t f x => some (t, f, x)
  | _ => none

/-- The finisher is a response without an error, which parses. -/
def Finisher.succeeds (parse : Tcp.Bytes → Message × Bool) : Finisher → Bool
  | .response (.tinyPB m) => m.errCode == 0 && (parse m.pbData).2
  | _ => false

/-- What `before_done` writes when `f` runs it; a connection that failed has an error code. -/
def Due (parse : Tcp.Bytes → Message × Bool) (f : Finisher) (ws : List (Write Message)) : Prop :=
  ∃ v : World Message, (f = .connect → v.client.connectErrorCode ≠ 0) ∧ ws = v.beforeDone parse f

/-- The winner is at `stage`, or has left `finishRpc`, and has written `ws`. -/
def Stage.Wrote (parse : Tcp.Bytes → Message × Bool) (f : Finisher) (ws : List (Write Message)) :
    Option (Stage Message) → Prop
  | some .dropTimer | some .cancelRead | some .beforeDone => ws = []
  | some (.writing xs) => Due parse f (ws ++ xs)
  | some .runDone | none => Due parse f ws

/-- The writes of a run are those of the winner, as far as it is. -/
structure Wrote (parse : Tcp.Bytes → Message × Bool) (w : World Message)
    (es : List (Event Message)) : Prop where
  «open» : (∀ t f, .won t f ∉ es) → es.filterMap Event.wroteBy = []
  winner : ∀ t f, .won t f ∈ es → ∃ ws, es.filterMap Event.wroteBy = ws.map (fun x => (t, f, x)) ∧
    Stage.Wrote parse f ws ((w.threads t).finishing.map Prod.snd)

/-- A state of a call, with the objects of the caller as they were and the events since. -/
structure Account (parse : Tcp.Bytes → Message × Bool) (o : Owned Message) (w : World Message)
    (p : Gate.Phase (ThreadId × Finisher)) (es : List (Event Message)) : Prop where
  keeps : Keeps w p
  connects : Connects w
  log : Gate.Log p (es.map Event.act)
  owned : w.owned = (es.filterMap Event.write).foldl Owned.write o
  wrote : Wrote parse w es

theorem won_mem_iff {p : Gate.Phase (ThreadId × Finisher)} {es : List (Event Message)}
    (hlog : Gate.Log p (es.map Event.act)) (t : ThreadId) (f : Finisher) :
    .won t f ∈ es ↔ p = .held (t, f) ∨ p = .closed (t, f) := by
  rw [← hlog.win_mem_iff]
  exact (List.mem_map_of_injective act_injective).symm

/-- A step without an event, at which no finisher moves. -/
theorem Wrote.still {w w' : World Message} {es : List (Event Message)} (h : Wrote parse w es)
    (hfinishing : ∀ t, (w'.threads t).finishing = (w.threads t).finishing) :
    Wrote parse w' es := by
  refine ⟨h.open, fun t f hwon => ?_⟩
  rw [hfinishing]
  exact h.winner t f hwon

theorem finishing_goOn {w w₁ : World Message} {t : ThreadId} {code : List (Op Message)}
    (hthreads : w₁.threads = w.threads) (hat : (w.threads t).finishing = none) (u : ThreadId) :
    ((w₁.goOn t code).threads u).finishing = (w.threads u).finishing := by
  rw [goOn, threads_setThread, hthreads]
  split
  · rename_i hut
    rw [hut, hat]
  · rfl

/-- Events that are no writes, and at which nobody wins. -/
theorem Wrote.append {w : World Message} {tr es : List (Event Message)} (h : Wrote parse w tr)
    (hwon : ∀ t f, .won t f ∉ es) (hwrote : es.filterMap Event.wroteBy = []) :
    Wrote parse w (tr ++ es) := by
  have heq : (tr ++ es).filterMap Event.wroteBy = tr.filterMap Event.wroteBy := by
    rw [List.filterMap_append, hwrote, List.append_nil]
  refine ⟨fun hnone => ?_, fun t f hmem => ?_⟩
  · rw [heq]
    exact h.open fun t f hmem => hnone t f (List.mem_append_left _ hmem)
  · rw [heq]
    exact h.winner t f ((List.mem_append.mp hmem).resolve_right (hwon t f))

/-- The state after a step of the winner. -/
theorem Wrote.of_winner {w' : World Message} {tr es : List (Event Message)} {t : ThreadId}
    {f : Finisher} (ws : List (Write Message))
    (hlog : Gate.Log (.held (t, f)) (tr.map Event.act)) (hwon : ∀ u g, .won u g ∉ es)
    (heq : (tr ++ es).filterMap Event.wroteBy = ws.map fun x => (t, f, x))
    (hstage : Stage.Wrote parse f ws ((w'.threads t).finishing.map Prod.snd)) :
    Wrote parse w' (tr ++ es) := by
  have hmem : .won t f ∈ tr := (won_mem_iff hlog t f).mpr (Or.inl rfl)
  refine ⟨fun hnone => absurd (List.mem_append_left _ hmem) (hnone t f), fun u g hu => ?_⟩
  rcases (won_mem_iff hlog u g).mp ((List.mem_append.mp hu).resolve_right (hwon u g)) with hp | hp
  · obtain ⟨rfl, rfl⟩ : t = u ∧ f = g := by simpa using hp
    exact ⟨ws, heq, hstage⟩
  · exact absurd hp (by simp)

theorem execs_wrote {o : Owned Message} {w w' : World Message}
    {p : Gate.Phase (ThreadId × Finisher)} {tr es : List (Event Message)} {t : ThreadId}
    {op : Op Message} {rest : List (Op Message)} (h : Account parse o w p tr)
    (hat : w.threads t = ⟨none, op :: rest⟩) (hexec : Execs w t rest op w' es) :
    Wrote parse w' (tr ++ es) := by
  have hnone : (w.threads t).finishing = none := by rw [hat]
  cases hexec with
  | goOn hsame howned hcode =>
    rw [List.append_nil]
    exact h.wrote.still (finishing_goOn hsame.threads hnone)
  | won hopen =>
    rename_i f
    obtain rfl : p = .open := h.keeps.open hopen
    have hnobody : ∀ u g, .won u g ∉ tr := by
      intro u g hu
      rcases (won_mem_iff h.log u g).mp hu with hp | hp <;> exact absurd hp (by simp)
    have heq : (tr ++ [Event.won t f]).filterMap Event.wroteBy = [] := by
      rw [List.filterMap_append, h.wrote.open hnobody]
      rfl
    refine ⟨fun _ => heq, fun u g hu => ?_⟩
    obtain ⟨rfl, rfl⟩ : u = t ∧ g = f := by
      simpa using (List.mem_append.mp hu).resolve_left (hnobody u g)
    refine ⟨[], heq, ?_⟩
    rw [threads_setThread, if_pos rfl]
    rfl
  | returned =>
    refine (h.wrote.still (finishing_goOn rfl hnone)).append ?_ rfl
    exact fun u g hu => absurd hu (by simp)

theorem finish_wrote {o : Owned Message} {w : World Message}
    {p : Gate.Phase (ThreadId × Finisher)} {tr : List (Event Message)} {t : ThreadId}
    {f : Finisher} {stage : Stage Message} {code : List (Op Message)} (h : Account parse o w p tr)
    (hat : w.threads t = ⟨some (f, stage), code⟩) :
    Wrote parse (w.finish parse t f code stage).1
      (tr ++ (w.finish parse t f code stage).2) := by
  obtain rfl : p = .held (t, f) := h.keeps.winner t f stage (by rw [hat])
  obtain ⟨ws, heq, hstage⟩ := h.wrote.winner t f ((won_mem_iff h.log t f).mpr (Or.inl rfl))
  rw [hat] at hstage
  -- a step without a write
  have next : ∀ {w₁ : World Message} {finishing : Option (Finisher × Stage Message)}
      (es : List (Event Message)), (∀ u g, .won u g ∉ es) → es.filterMap Event.wroteBy = [] →
      Stage.Wrote parse f ws (finishing.map Prod.snd) →
      Wrote parse (w₁.setThread t ⟨finishing, code⟩) (tr ++ es) := by
    intro w₁ finishing es hwon hnone hw
    refine .of_winner ws h.log hwon ?_ ?_
    · rw [List.filterMap_append, hnone, List.append_nil]
      exact heq
    · rw [threads_setThread, if_pos rfl]
      exact hw
  have quiet : ∀ u g, Event.won u g ∉ ([] : List (Event Message)) := by simp
  have ran : ∀ u g, Event.won u g ∉ ([.ran t f] : List (Event Message)) := by simp
  cases stage with
  | dropTimer | cancelRead =>
    simp only [finish]
    split
    · exact next [] quiet rfl hstage
    · exact next [] quiet rfl hstage
  | beforeDone =>
    obtain rfl : ws = [] := hstage
    refine next [] quiet rfl ⟨w, ?_, rfl⟩
    rintro rfl
    exact h.connects.failed t (Or.inr ⟨.beforeDone, by rw [hat]⟩)
  | writing writes =>
    cases writes with
    | nil =>
      refine next [] quiet rfl ?_
      rw [Option.map_some, Stage.Wrote, List.append_nil] at hstage
      exact hstage
    | cons x xs =>
      have hwrote : Stage.Wrote parse f (ws ++ [x]) (some (.writing xs)) := by
        simpa [Stage.Wrote] using hstage
      refine .of_winner (ws ++ [x]) h.log (fun u g hu => absurd hu (by simp [finish])) ?_ ?_
      · rw [List.filterMap_append, heq, List.map_append]
        rfl
      · simp only [finish]
        rw [threads_setThread, if_pos rfl]
        exact hwrote
  | runDone =>
    simp only [finish]
    split
    · exact next [] quiet rfl hstage
    · exact next [.ran t f] ran rfl hstage
    · exact next [.ran t f] ran rfl hstage

theorem step_account {o : Owned Message} {w w' : World Message}
    {p : Gate.Phase (ThreadId × Finisher)} {tr es : List (Event Message)} {l : Label}
    (h : Account parse o w p tr) (hstep : step parse w l = some (w', es)) :
    ∃ p', Account parse o w' p' (tr ++ es) := by
  obtain ⟨p', hkeeps, hext, howned⟩ := step_keeps h.keeps hstep
  refine ⟨p', hkeeps, step_connects h.connects hstep, ?_, ?_, ?_⟩
  · rw [List.map_append]
    exact hext _ h.log
  · rw [List.filterMap_append, List.foldl_append, ← h.owned]
    exact howned
  · cases steps_of_step hstep with
    | exec hat hexec => exact execs_wrote h hat hexec
    | finish hat => exact finish_wrote h hat
    | spawn hidle hsame howned hcode =>
      rw [List.append_nil]
      refine h.wrote.still (finishing_goOn hsame.threads ?_)
      rw [threads_eq_of_idle hidle]
    | outside hsame howned =>
      rw [List.append_nil]
      exact h.wrote.still fun t => by rw [hsame.threads]

theorem call_account (channel : RpcChannel) {args : Arguments} (call : Call)
    (controller : RpcController) (response : Message) (hargs : args.passes = true) :
    Account parse (World.call channel args call controller response).owned
      (World.call channel args call controller response) .open [] where
  keeps := call_keeps channel call controller response hargs
  connects := call_connects channel call controller response hargs
  log := .nil
  owned := rfl
  wrote := ⟨fun _ => rfl, fun _ _ hwon => absurd hwon (by simp)⟩

theorem run_account {channel : RpcChannel} {args : Arguments} {call : Call}
    {controller : RpcController} {response : Message} {ls : List Label} {w : World Message}
    {es : List (Event Message)} (hargs : args.passes = true)
    (hrun : run (step parse) (World.call channel args call controller response) ls =
      some (w, es)) :
    ∃ p, Account parse (World.call channel args call controller response).owned w p es := by
  refine run_induction (fun v tr => ∃ p,
    Account parse (World.call channel args call controller response).owned v p tr) ?_ []
    ⟨.open, call_account channel call controller response hargs⟩ hrun
  intro v tr l v' es' ⟨p, hp⟩ hstep
  exact step_account hp hstep

theorem filterMap_write (es : List (Event Message)) :
    es.filterMap Event.write = (es.filterMap Event.wroteBy).map fun x => x.2.2 := by
  rw [List.map_filterMap]
  congr 1
  funext e
  cases e <;> rfl

/-- When the winner has left `finishRpc`, its writes are all there is to the objects. -/
theorem Account.through {o : Owned Message} {w : World Message}
    {p : Gate.Phase (ThreadId × Finisher)} {es : List (Event Message)} {t : ThreadId}
    {f : Finisher} (h : Account parse o w p es) (hwon : .won t f ∈ es)
    (hleft : (w.threads t).finishing = none) :
    ∃ ws, Due parse f ws ∧ es.filterMap Event.wroteBy = ws.map (fun x => (t, f, x)) ∧
      w.owned = ws.foldl Owned.write o := by
  obtain ⟨ws, heq, hstage⟩ := h.wrote.winner t f hwon
  rw [hleft] at hstage
  refine ⟨ws, hstage, heq, ?_⟩
  rw [h.owned, filterMap_write, heq, List.map_map]
  congr 1
  exact List.map_id ws

end RocketRpc.Rpc
