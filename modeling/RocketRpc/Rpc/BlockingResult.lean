import RocketRpc.Rpc.FinisherWrites
import Mathlib.Algebra.GroupWithZero.Nat

/-
  What `CallMethodBlocking` returns.

  The caller's thread goes through the places of `CallerPlace`, whatever the other threads do
  (`step_blocking`), and from each of them it can go on to return (`Blocking.can_return`).
  What it returns is told by the winner of the call: `returns_truth` says when that is the
  truth. The two ways to return something else are a controller that is null or foreign, and
  a local timeout that crosses a response which came to a result.
-/

namespace RocketRpc.Rpc

open Machine World

variable {Message : Type} {parse : Tcp.Bytes → Message × Bool}

/-! ## Where the caller is -/

/-- The operations of `CallMethodBlocking` after `callMethodInternal`. -/
def Op.isWait : Op Message → Bool
  | .waitFor | .wait | .ret _ | .finishRpc .localTimeout => true
  | _ => false

/-- The operations are of `callMethodInternal` or of a callback. -/
def Clean (code : List (Op Message)) : Prop := ∀ op ∈ code, op.isWait = false

/-- A bound on the operations that an operation leads to. -/
def Op.cost : Op Message → Nat
  | .acquire => 12
  | .setMsgId => 11
  | .serialize => 10
  | .addTimer => 9
  | .start => 8
  | .connected => 8
  | .checkFinished => 7
  | .readMessage => 6
  | .recheckFinished => 5
  | .send => 4
  | .finishRpc _ => 3
  | .waitFor | .wait | .ret _ => 2

def cost (code : List (Op Message)) : Nat := (code.map Op.cost).sum

theorem cost_append (code code' : List (Op Message)) :
    cost (code ++ code') = cost code + cost code' := by
  simp [cost]

/-- What the steps of `CallMethodBlocking` depend on besides the threads. -/
structure SameWait (w w' : World Message) : Prop where
  threads : w'.threads = w.threads
  waitDone : w'.waitDone = w.waitDone
  args : w'.args = w.args
  done : w'.state.done = w.state.done

/-- An operation of `callMethodInternal` or of a callback leads to others of the kind, or
    wins; it ends after finitely many. -/
theorem exec_clean {w w' : World Message} {t : ThreadId} {rest : List (Op Message)}
    {op : Op Message} {input : Input} {es : List (Event Message)} (hop : op.isWait = false)
    (h : w.exec t rest op input = some (w', es)) :
    (∃ w₁ next, w' = w₁.goOn t (next ++ rest) ∧ es = [] ∧ SameWait w w₁ ∧
      w₁.state.finished = w.state.finished ∧ Clean next ∧ cost next < op.cost ∧
      next.length ≤ 1) ∨
    (∃ f, op = .finishRpc f ∧ es = [.won t f] ∧
      w' = { w with state := { w.state with finished := true } }.setThread t
        ⟨some (f, .dropTimer), rest⟩) := by
  -- most operations are replaced by another one, or done
  have next : ∀ {w₁ : World Message} {x : Op Message}, SameWait w w₁ →
      w₁.state.finished = w.state.finished → x.isWait = false → x.cost < op.cost →
      ∃ w₂ next, w₁.goOn t (x :: rest) = w₂.goOn t (next ++ rest) ∧
        ([] : List (Event Message)) = [] ∧ SameWait w w₂ ∧
        w₂.state.finished = w.state.finished ∧ Clean next ∧ cost next < op.cost ∧
        next.length ≤ 1 := by
    intro w₁ x hsame hfinished hx hcost
    exact ⟨w₁, [x], rfl, rfl, hsame, hfinished, by simpa [Clean] using hx,
      by simpa [cost] using hcost, Nat.le_refl 1⟩
  have done : ∀ {w₁ : World Message}, SameWait w w₁ →
      w₁.state.finished = w.state.finished →
      ∃ w₂ next, w₁.goOn t rest = w₂.goOn t (next ++ rest) ∧
        ([] : List (Event Message)) = [] ∧ SameWait w w₂ ∧
        w₂.state.finished = w.state.finished ∧ Clean next ∧ cost next < op.cost ∧
        next.length ≤ 1 := by
    intro w₁ hsame hfinished
    have hcost : 0 < op.cost := by cases op <;> simp [Op.cost]
    exact ⟨w₁, [], rfl, rfl, hsame, hfinished, fun _ hmem => absurd hmem (by simp), hcost,
      Nat.zero_le _⟩
  have hdoes := does_of_exec h
  cases hdoes with
  | won => exact Or.inr ⟨_, rfl, rfl, rfl⟩
  | connects | tooLate | cancels | send | lost =>
    exact Or.inl (done ⟨rfl, rfl, rfl, rfl⟩ rfl)
  | waits | woken | timedOut | waited | returned => exact absurd hop (by simp [Op.isWait])
  | _ => exact Or.inl (next ⟨rfl, rfl, rfl, rfl⟩ rfl rfl (by simp [Op.cost]))

/-- The places of the caller's thread: what it does inside `finishRpc`, what it has still to
    do, and whether the gate of the call is taken and the call has returned. -/
inductive CallerPlace (finished returned : Prop) :
    Option (Finisher × Stage Message) → List (Op Message) → Prop where
  | calling {finishing code} (hclean : Clean code) :
      CallerPlace finished returned finishing (code ++ [.waitFor])
  | woken : CallerPlace finished returned none [.ret false]
  | timedOut : CallerPlace finished returned none [.finishRpc .localTimeout, .ret true]
  | finishing {s} (hfinished : finished) :
      CallerPlace finished returned (some (.localTimeout, s)) [.ret true]
  | lost (hfinished : finished) : CallerPlace finished returned none [.wait, .ret true]
  | late (hfinished : finished) : CallerPlace finished returned none [.ret true]
  | back {finishing code} (hclean : Clean code) (hreturned : returned) :
      CallerPlace finished returned finishing code

theorem CallerPlace.mono {finished finished' returned returned' : Prop}
    {finishing : Option (Finisher × Stage Message)} {code : List (Op Message)}
    (h : CallerPlace finished returned finishing code) (hfinished : finished → finished')
    (hreturned : returned → returned') : CallerPlace finished' returned' finishing code := by
  cases h with
  | calling hclean => exact .calling hclean
  | woken => exact .woken
  | timedOut => exact .timedOut
  | finishing hf => exact .finishing (hfinished hf)
  | lost hf => exact .lost (hfinished hf)
  | late hf => exact .late (hfinished hf)
  | back hclean hret => exact .back hclean (hreturned hret)

theorem CallerPlace.of_nil {finished returned : Prop}
    (h : CallerPlace finished returned none ([] : List (Op Message))) : returned := by
  generalize hcode : ([] : List (Op Message)) = code at h
  cases h with
  | back hclean hreturned => exact hreturned
  | _ => exact absurd hcode (by simp)

/-- A `CallMethodBlocking` whose arguments were accepted, with its events so far. -/
structure Blocking (w : World Message) (es : List (Event Message)) : Prop where
  args : w.args.controller = true
  done : w.state.done = .blocking
  taken : w.state.finished = true → ∃ t f, .won t f ∈ es
  winner : ∀ t f, .won t f ∈ es →
    w.waitDone = true ∨ ∃ s, (w.threads t).finishing = some (f, s)
  others : ∀ t, t ≠ caller → Clean (w.threads t).code
  place : CallerPlace (w.state.finished = true) (∃ code, .returned code ∈ es)
    (w.threads caller).finishing (w.threads caller).code

/-- A thread goes on, with nothing else that the steps of `CallMethodBlocking` depend on. -/
theorem Blocking.setThread {w w₁ : World Message} {es : List (Event Message)} {t : ThreadId}
    {thread : Thread Message} (h : Blocking w es) (hsame : SameWait w w₁)
    (hfinished : w₁.state.finished = w.state.finished)
    (hfinishing : ∀ f s, (w.threads t).finishing = some (f, s) →
      w₁.waitDone = true ∨ ∃ s', thread.finishing = some (f, s'))
    (hother : t ≠ caller → Clean thread.code)
    (hplace : t = caller → CallerPlace (w.state.finished = true) (∃ code, .returned code ∈ es)
      thread.finishing thread.code) : Blocking (w₁.setThread t thread) es := by
  have hthreads : ∀ u, (w₁.setThread t thread).threads u =
      if u = t then thread else w.threads u := by
    intro u
    rw [threads_setThread, hsame.threads]
  refine ⟨(congrArg Arguments.controller hsame.args).trans h.args, hsame.done.trans h.done,
    ?_, ?_, ?_, ?_⟩
  · exact fun hf => h.taken (hfinished.symm.trans hf)
  · intro u f hu
    rcases h.winner u f hu with hwait | ⟨s, hs⟩
    · exact Or.inl (hsame.waitDone.trans hwait)
    · rw [hthreads]
      split
      · rename_i hut
        subst hut
        exact hfinishing f s hs
      · exact Or.inr ⟨s, hs⟩
  · intro u hu
    rw [hthreads]
    split
    · rename_i hut
      exact hother (hut ▸ hu)
    · exact h.others u hu
  · rw [hthreads]
    have hf : (w₁.setThread t thread).state.finished = w.state.finished := hfinished
    rw [hf]
    split
    · rename_i hut
      exact hplace hut.symm
    · exact h.place

/-- Events that neither win nor matter to the place. -/
theorem Blocking.append {w : World Message} {tr es : List (Event Message)} (h : Blocking w tr)
    (hwon : ∀ t f, .won t f ∉ es) : Blocking w (tr ++ es) := by
  refine ⟨h.args, h.done, ?_, ?_, h.others, ?_⟩
  · intro hf
    obtain ⟨t, f, hmem⟩ := h.taken hf
    exact ⟨t, f, List.mem_append_left _ hmem⟩
  · exact fun t f hmem => h.winner t f ((List.mem_append.mp hmem).resolve_right (hwon t f))
  · exact h.place.mono id fun ⟨code, hcode⟩ => ⟨code, List.mem_append_left _ hcode⟩

/-- A thread wins the compare-exchange. -/
theorem Blocking.won {w : World Message} {tr : List (Event Message)} {t : ThreadId}
    {f : Finisher} {rest : List (Op Message)} (h : Blocking w tr)
    (hnone : (w.threads t).finishing = none) (hother : t ≠ caller → Clean rest)
    (hplace : t = caller → CallerPlace True (∃ code, .returned code ∈ tr)
      (some (f, .dropTimer)) rest) :
    Blocking ({ w with state := { w.state with finished := true } }.setThread t
      ⟨some (f, .dropTimer), rest⟩) (tr ++ [.won t f]) := by
  have hthreads : ∀ u, (({ w with state := { w.state with finished := true } } :
      World Message).setThread t ⟨some (f, .dropTimer), rest⟩).threads u =
        if u = t then ⟨some (f, .dropTimer), rest⟩ else w.threads u :=
    fun u => threads_setThread _ _ _ _
  refine ⟨h.args, h.done, fun _ => ⟨t, f, by simp⟩, ?_, ?_, ?_⟩
  · intro u g hu
    rw [hthreads]
    rcases List.mem_append.mp hu with hu | hu
    · refine (h.winner u g hu).imp_right fun ⟨s, hs⟩ => ?_
      have hut : u ≠ t := by
        rintro rfl
        exact absurd (hnone.symm.trans hs) (by simp)
      exact ⟨s, by rw [if_neg hut, hs]⟩
    · obtain ⟨rfl, rfl⟩ : u = t ∧ g = f := by simpa using hu
      exact Or.inr ⟨.dropTimer, by rw [if_pos rfl]⟩
  · intro u hu
    rw [hthreads]
    split
    · rename_i hut
      exact hother (hut ▸ hu)
    · exact h.others u hu
  · have hreturned : (∃ code, .returned code ∈ tr) →
        ∃ code, .returned code ∈ tr ++ [Event.won t f] :=
      fun ⟨code, hcode⟩ => ⟨code, List.mem_append_left _ hcode⟩
    rw [hthreads]
    split
    · rename_i hut
      exact (hplace hut.symm).mono (fun _ => rfl) hreturned
    · exact h.place.mono (fun _ => rfl) hreturned

theorem Clean.append {code code' : List (Op Message)} (h : Clean code) (h' : Clean code') :
    Clean (code ++ code') := by
  intro op hop
  exact (List.mem_append.mp hop).elim (h op) (h' op)

theorem Clean.of_cons {op : Op Message} {rest : List (Op Message)} (h : Clean (op :: rest)) :
    op.isWait = false ∧ Clean rest :=
  ⟨h op (by simp), fun x hx => h x (List.mem_cons_of_mem _ hx)⟩

/-- A thread of the call, or a callback, does an operation that is not a wait. -/
theorem clean_blocking {w w' : World Message} {tr es : List (Event Message)} {t : ThreadId}
    {op : Op Message} {rest : List (Op Message)} {input : Input} (h : Blocking w tr)
    (hat : w.threads t = ⟨none, op :: rest⟩) (hop : op.isWait = false)
    (hexec : w.exec t rest op input = some (w', es)) (hother : t ≠ caller → Clean rest)
    (hplace : t = caller → ∀ finished finishing code, Clean code →
      CallerPlace finished (∃ code, .returned code ∈ tr) finishing (code ++ rest)) :
    Blocking w' (tr ++ es) := by
  have hnone : (w.threads t).finishing = none := by rw [hat]
  rcases exec_clean hop hexec with
    ⟨w₁, next, rfl, rfl, hsame, hfinished, hnext, -⟩ | ⟨f, -, rfl, rfl⟩
  · rw [List.append_nil]
    refine h.setThread hsame hfinished ?_ (fun ht => hnext.append (hother ht))
      fun ht => hplace ht _ _ next hnext
    exact fun f s hs => absurd (hnone.symm.trans hs) (by simp)
  · refine h.won hnone hother fun ht => ?_
    exact hplace ht _ _ [] fun x hx => absurd hx (by simp)

/-- The caller goes on in `CallMethodBlocking`. -/
theorem Blocking.next {w : World Message} {tr es : List (Event Message)}
    {code : List (Op Message)} (h : Blocking w tr)
    (hnone : (w.threads caller).finishing = none) (hwon : ∀ t f, .won t f ∉ es)
    (hplace : CallerPlace (w.state.finished = true) (∃ c, .returned c ∈ tr ++ es) none code) :
    Blocking (w.goOn caller code) (tr ++ es) := by
  refine (h.append hwon).setThread ⟨rfl, rfl, rfl, rfl⟩ rfl ?_ (fun hne => absurd rfl hne)
    fun _ => hplace
  exact fun f s hs => absurd (hnone.symm.trans hs) (by simp)

theorem exec_blocking {w w' : World Message} {tr es : List (Event Message)} {t : ThreadId}
    {op : Op Message} {rest : List (Op Message)} {input : Input} (h : Blocking w tr)
    (hat : w.threads t = ⟨none, op :: rest⟩)
    (hexec : w.exec t rest op input = some (w', es)) : Blocking w' (tr ++ es) := by
  by_cases ht : t = caller
  · subst ht
    have hnone : (w.threads caller).finishing = none := by rw [hat]
    have quiet : ∀ t f, Event.won t f ∉ ([] : List (Event Message)) := by simp
    have hp := h.place
    rw [hat] at hp
    generalize hcode : op :: rest = code at hp
    cases hp with
    | calling hclean =>
      rename_i pre
      cases pre with
      | nil =>
        obtain ⟨rfl, rfl⟩ : op = .waitFor ∧ rest = [] := by simpa using hcode
        have hdoes := does_of_exec hexec
        cases hdoes with
        | woken => exact h.next hnone quiet .woken
        | timedOut => exact h.next hnone quiet .timedOut
      | cons x pre =>
        obtain ⟨rfl, rfl⟩ : op = x ∧ rest = pre ++ [.waitFor] := by simpa using hcode
        refine clean_blocking h hat hclean.of_cons.1 hexec (fun hne => absurd rfl hne) ?_
        intro _ finished finishing code hc
        rw [← List.append_assoc]
        exact .calling (hc.append hclean.of_cons.2)
    | woken =>
      obtain ⟨rfl, rfl⟩ : op = .ret false ∧ rest = [] := by simpa using hcode
      have hdoes := does_of_exec hexec
      cases hdoes with
      | returned => exact h.next hnone (by simp) (.back (fun x hx => absurd hx (by simp))
          ⟨w.result false, by simp⟩)
    | timedOut =>
      obtain ⟨rfl, rfl⟩ : op = .finishRpc .localTimeout ∧ rest = [.ret true] := by
        simpa using hcode
      have hdoes := does_of_exec hexec
      cases hdoes with
      | waits hfinished => exact h.next hnone quiet (.lost hfinished)
      | lost _ hf => exact absurd rfl hf
      | won => exact h.won hnone (fun hne => absurd rfl hne) fun _ => .finishing trivial
    | lost hfinished =>
      obtain ⟨rfl, rfl⟩ : op = .wait ∧ rest = [.ret true] := by simpa using hcode
      have hdoes := does_of_exec hexec
      cases hdoes with
      | waited => exact h.next hnone quiet (.late hfinished)
    | late hfinished =>
      obtain ⟨rfl, rfl⟩ : op = .ret true ∧ rest = [] := by simpa using hcode
      have hdoes := does_of_exec hexec
      cases hdoes with
      | returned => exact h.next hnone (by simp) (.back (fun x hx => absurd hx (by simp))
          ⟨w.result true, by simp⟩)
    | back hclean hreturned =>
      subst hcode
      refine clean_blocking h hat hclean.of_cons.1 hexec (fun hne => absurd rfl hne) ?_
      exact fun _ finished finishing code hc => .back (hc.append hclean.of_cons.2) hreturned
  · have hclean := h.others t ht
    rw [hat] at hclean
    exact clean_blocking h hat hclean.of_cons.1 hexec (fun _ => hclean.of_cons.2)
      fun heq => absurd heq ht

/-- A finisher that leaves `finishRpc` has set the flag of `CallMethodBlocking`. -/
theorem finish_blocking {w : World Message} {tr : List (Event Message)} {t : ThreadId}
    {f : Finisher} {stage : Stage Message} {code : List (Op Message)} (h : Blocking w tr)
    (hat : w.threads t = ⟨some (f, stage), code⟩) :
    Blocking (w.finish parse t f code stage).1 (tr ++ (w.finish parse t f code stage).2) := by
  have hfinishing : ∀ {g s}, (w.threads t).finishing = some (g, s) → g = f := by
    intro g s hg
    rw [hat, Option.some.injEq, Prod.mk.injEq] at hg
    exact hg.1.symm
  have hother : t ≠ caller → Clean code := by
    intro ht
    have hclean := h.others t ht
    rw [hat] at hclean
    exact hclean
  have hplace : t = caller → CallerPlace (w.state.finished = true) (∃ c, .returned c ∈ tr)
      (some (f, stage)) code := by
    rintro rfl
    have hp := h.place
    rw [hat] at hp
    exact hp
  -- the finisher goes on
  have next : ∀ {w₁ : World Message} {s' : Stage Message}, SameWait w w₁ →
      w₁.state.finished = w.state.finished →
      Blocking (w₁.setThread t ⟨some (f, s'), code⟩) tr := by
    intro w₁ s' hsame hfinished
    refine h.setThread hsame hfinished ?_ hother fun ht => ?_
    · exact fun g s hg => Or.inr ⟨s', by rw [hfinishing hg]⟩
    · cases hplace ht with
      | calling hclean => exact .calling hclean
      | finishing hf => exact .finishing hf
      | back hclean hreturned => exact .back hclean hreturned
  have same : SameWait w w := ⟨rfl, rfl, rfl, rfl⟩
  cases stage with
  | dropTimer | cancelRead =>
    simp only [finish]
    rw [List.append_nil]
    split
    · exact next ⟨rfl, rfl, rfl, rfl⟩ rfl
    · exact next same rfl
  | beforeDone =>
    simp only [finish]
    rw [List.append_nil]
    exact next same rfl
  | writing writes =>
    cases writes with
    | nil =>
      simp only [finish]
      rw [List.append_nil]
      exact next same rfl
    | cons x xs =>
      have hsame := sameGate_write w x
      have hargs : (w.write x).args = w.args := by cases x <;> rfl
      simp only [finish]
      refine (next ⟨hsame.threads, hsame.waitDone, hargs, hsame.done⟩ hsame.finished).append ?_
      exact fun u g hu => absurd hu (by simp)
  | runDone =>
    simp only [finish]
    split
    · rename_i hnull
      exact absurd (h.done.symm.trans hnull) (by simp)
    · rename_i huser
      exact absurd (h.done.symm.trans huser) (by simp)
    · refine Blocking.append ?_ fun u g hu => absurd hu (by simp)
      have hset : Blocking ({ w with waitDone := true } : World Message) tr :=
        ⟨h.args, h.done, h.taken, fun _ _ _ => Or.inl rfl, h.others, h.place⟩
      refine hset.setThread ⟨rfl, rfl, rfl, rfl⟩ rfl (fun _ _ _ => Or.inl rfl) hother fun ht => ?_
      cases hplace ht with
      | calling hclean => exact .calling hclean
      | finishing hf => exact .late hf
      | back hclean hreturned => exact .back hclean hreturned

theorem step_blocking {w w' : World Message} {tr es : List (Event Message)} {l : Label}
    (h : Blocking w tr) (hstep : step parse w l = some (w', es)) : Blocking w' (tr ++ es) := by
  -- a callback starts on an idle thread; the caller is one when it has returned
  have spawn : ∀ {w₁ : World Message} {t : ThreadId} {op : Op Message},
      w.threads t = ⟨none, []⟩ → SameWait w w₁ → w₁.state.finished = w.state.finished →
      op.isWait = false → Blocking (w₁.goOn t [op]) (tr ++ []) := by
    intro w₁ t op hat hsame hfinished hop
    have hclean : Clean [op] := by simpa [Clean] using hop
    rw [List.append_nil]
    refine h.setThread hsame hfinished ?_ (fun _ => hclean) fun ht => ?_
    · intro f s hs
      rw [hat] at hs
      exact absurd hs (by simp)
    · subst ht
      have hp := h.place
      rw [hat] at hp
      exact .back hclean hp.of_nil
  have hmoves := callMoves_of_step hstep
  cases hmoves with
  | finishes hat => exact finish_blocking h hat
  | execs hat hexec => exact exec_blocking h hat hexec
  | timerFires _ hat | responseArrives _ hat | connectReturns _ hat =>
    exact spawn hat ⟨rfl, rfl, rfl, rfl⟩ rfl rfl
  | readReplaced =>
    rw [List.append_nil]
    exact ⟨h.args, h.done, h.taken, h.winner, h.others, h.place⟩

/-! ## The caller returns -/

/-- A bound on the steps of a winner before it runs the closure. -/
def Stage.rank : Stage Message → Nat
  | .dropTimer => 10
  | .cancelRead => 9
  | .beforeDone => 8
  | .writing writes => 1 + writes.length
  | .runDone => 0

theorem length_beforeDone_le (parse : Tcp.Bytes → Message × Bool) (w : World Message)
    (f : Finisher) :
    (w.beforeDone parse f).length ≤ 6 := by
  cases f with
  | preSend error => cases error <;> simp [beforeDone, PreSend.writes, setError]
  | response msg =>
    cases msg with
    | tinyPB m =>
      simp only [beforeDone]
      split
      · simp [setError]
      · split <;> simp [setError]
    | other => simp [beforeDone, setError]
  | _ => simp [beforeDone, setError, startCancel]

theorem finish_lower (parse : Tcp.Bytes → Message × Bool) (w : World Message) (t : ThreadId)
    (f : Finisher) (code : List (Op Message)) {stage : Stage Message} (hstage : stage ≠ .runDone) :
    ∃ w₁ stage', (w.finish parse t f code stage).1 = w₁.setThread t ⟨some (f, stage'), code⟩ ∧
      SameWait w w₁ ∧ stage'.rank < stage.rank := by
  cases stage with
  | dropTimer | cancelRead =>
    simp only [finish]
    split
    · exact ⟨_, _, rfl, ⟨rfl, rfl, rfl, rfl⟩, by simp [Stage.rank]⟩
    · exact ⟨_, _, rfl, ⟨rfl, rfl, rfl, rfl⟩, by simp [Stage.rank]⟩
  | beforeDone =>
    have hlen := length_beforeDone_le parse w f
    exact ⟨_, _, rfl, ⟨rfl, rfl, rfl, rfl⟩, by simp only [Stage.rank]; omega⟩
  | writing writes =>
    cases writes with
    | nil => exact ⟨_, _, rfl, ⟨rfl, rfl, rfl, rfl⟩, by simp [Stage.rank]⟩
    | cons x xs =>
      have hsame := sameGate_write w x
      have hargs : (w.write x).args = w.args := by cases x <;> rfl
      exact ⟨_, _, rfl, ⟨hsame.threads, hsame.waitDone, hargs, hsame.done⟩, by simp [Stage.rank]⟩
  | runDone => exact absurd rfl hstage

/-- The states that a state can go on to, `es` behind the events so far. -/
def Leads (parse : Tcp.Bytes → Message × Bool) (w w' : World Message)
    (es : List (Event Message)) : Prop :=
  ∃ ls, run (step parse) w ls = some (w', es)

theorem Leads.step {w w₁ w' : World Message} {l : Label} {es es' : List (Event Message)}
    (hstep : World.step parse w l = some (w₁, es)) (h : Leads parse w₁ w' es') :
    Leads parse w w' (es ++ es') := by
  obtain ⟨ls, hrun⟩ := h
  exact ⟨l :: ls, run_cons_eq_some.mpr ⟨w₁, es, es', hstep, hrun, rfl⟩⟩

theorem Leads.refl (w : World Message) : Leads parse w w [] := ⟨[], rfl⟩

/-- A winner can go on until it has run the closure, which sets the flag. -/
theorem leads_finish (parse : Tcp.Bytes → Message × Bool) {w : World Message} {t : ThreadId}
    {f : Finisher} {stage : Stage Message} {code : List (Op Message)}
    (hat : w.threads t = ⟨some (f, stage), code⟩) (hdone : w.state.done = .blocking) :
    ∃ w' es, Leads parse w w' es ∧ w'.waitDone = true ∧ w'.threads t = ⟨none, code⟩ ∧
      ∀ u, u ≠ t → w'.threads u = w.threads u := by
  induction hn : stage.rank using Nat.strongRecOn generalizing w stage with
  | ind n ih =>
    have hstep : World.step parse w (.thread t .none) = some (w.finish parse t f code stage) := by
      simp only [World.step, hat, if_true]
    by_cases hstage : stage = .runDone
    · subst hstage
      have heq : w.finish parse t f code .runDone =
          ({ w with waitDone := true }.goOn t code, [.ran t f]) := by
        simp only [finish, hdone]
      rw [heq] at hstep
      refine ⟨_, _, Leads.step hstep (.refl _), rfl, ?_, fun u hu => ?_⟩
      · rw [goOn, threads_setThread, if_pos rfl]
      · rw [goOn, threads_setThread, if_neg hu]
    · obtain ⟨w₁, stage', heq, hsame, hlt⟩ := finish_lower parse w t f code hstage
      have hat' : (w.finish parse t f code stage).1.threads t = ⟨some (f, stage'), code⟩ := by
        rw [heq, threads_setThread, if_pos rfl]
      have hdone' : (w.finish parse t f code stage).1.state.done = .blocking := by
        rw [heq]
        exact hsame.done.trans hdone
      obtain ⟨w', es, hleads, hwait, hthread, hothers⟩ := ih _ (hn ▸ hlt) hat' hdone' rfl
      refine ⟨w', _, Leads.step hstep hleads, hwait, hthread, fun u hu => ?_⟩
      rw [hothers u hu, heq, threads_setThread, if_neg hu, hsame.threads]

theorem Leads.trans {w w₁ w' : World Message} {es es' : List (Event Message)}
    (h : Leads parse w w₁ es) (h' : Leads parse w₁ w' es') : Leads parse w w' (es ++ es') := by
  obtain ⟨ls, hrun⟩ := h
  obtain ⟨ls', hrun'⟩ := h'
  exact ⟨ls ++ ls', run_append.mpr ⟨w₁, es, es', hrun, hrun', rfl⟩⟩

theorem Blocking.leads {w w' : World Message} {tr es : List (Event Message)} (h : Blocking w tr)
    (hleads : Leads parse w w' es) : Blocking w' (tr ++ es) := by
  obtain ⟨ls, hrun⟩ := hleads
  exact run_induction Blocking (fun v tr l v' es' hv hs => step_blocking hv hs) tr h hrun

/-- The call can go on until it returns. -/
def CanReturn (parse : Tcp.Bytes → Message × Bool) (w : World Message)
    (tr : List (Event Message)) : Prop :=
  ∃ w' es, Leads parse w w' es ∧ ∃ code, .returned code ∈ tr ++ es

theorem CanReturn.of_leads {w w₁ : World Message} {tr es : List (Event Message)}
    (hleads : Leads parse w w₁ es) (h : CanReturn parse w₁ (tr ++ es)) : CanReturn parse w tr := by
  obtain ⟨w', es', hleads', code, hcode⟩ := h
  exact ⟨w', es ++ es', hleads.trans hleads', code, by rwa [← List.append_assoc]⟩

/-- The step of a thread that is not inside `finishRpc`. -/
theorem leads_exec (parse : Tcp.Bytes → Message × Bool) {w w' : World Message} {t : ThreadId}
    {op : Op Message} {rest : List (Op Message)} {input : Input} {es : List (Event Message)}
    (hat : w.threads t = ⟨none, op :: rest⟩)
    (hexec : w.exec t rest op input = some (w', es)) : Leads parse w w' es := by
  have hstep : World.step parse w (.thread t input) = some (w', es) := by
    simp only [World.step, hat, hexec]
  simpa using Leads.step hstep (.refl w')

theorem can_return_ret {w : World Message} {tr : List (Event Message)} (b : Bool)
    (hat : w.threads caller = ⟨none, [.ret b]⟩) : CanReturn parse w tr := by
  have hexec : w.exec caller [] (.ret b) .none =
      some (w.goOn caller [], [.returned (w.result b)]) := rfl
  exact ⟨_, _, leads_exec parse hat hexec, w.result b, by simp⟩

theorem can_return_lost {w : World Message} {tr : List (Event Message)} (h : Blocking w tr)
    (hat : w.threads caller = ⟨none, [.wait, .ret true]⟩) (hfinished : w.state.finished = true) :
    CanReturn parse w tr := by
  have woken : ∀ {v : World Message} {es : List (Event Message)},
      v.threads caller = ⟨none, [.wait, .ret true]⟩ → v.waitDone = true →
      CanReturn parse v es := by
    intro v es hv hwait
    have hexec : v.exec caller [.ret true] .wait .none = some (v.goOn caller [.ret true], []) := by
      simp only [exec, hwait, if_true]
    refine CanReturn.of_leads (leads_exec parse hv hexec) (can_return_ret true ?_)
    rw [goOn, threads_setThread, if_pos rfl]
  obtain ⟨t, f, hwon⟩ := h.taken hfinished
  rcases h.winner t f hwon with hwait | ⟨s, hs⟩
  · exact woken hat hwait
  · -- the winner runs the closure first
    have ht : caller ≠ t := by
      rintro rfl
      rw [hat] at hs
      exact absurd hs (by simp)
    have hthread : w.threads t = ⟨some (f, s), (w.threads t).code⟩ := by rw [← hs]
    obtain ⟨w', es, hleads, hwait, -, hothers⟩ := leads_finish parse hthread h.done
    exact CanReturn.of_leads hleads (woken ((hothers caller ht).trans hat) hwait)

theorem exec_enabled (w : World Message) (t : ThreadId) (rest : List (Op Message))
    {op : Op Message} (hop : op.isWait = false) :
    ∃ input r, w.exec t rest op input = some r := by
  cases op with
  | waitFor | wait | ret localTimeout => exact absurd hop (by simp [Op.isWait])
  | acquire =>
    refine ⟨.found true, ?_⟩
    simp only [exec]
    split <;> exact ⟨_, rfl⟩
  | setMsgId => exact ⟨.generated [], _, rfl⟩
  | serialize => exact ⟨.serialized true, _, rfl⟩
  | addTimer | readMessage | send => exact ⟨.none, _, rfl⟩
  | start | connected | checkFinished | recheckFinished =>
    refine ⟨.none, ?_⟩
    simp only [exec]
    split <;> exact ⟨_, rfl⟩
  | finishRpc f =>
    refine ⟨.none, ?_⟩
    simp only [exec]
    split
    · cases f <;> exact ⟨_, rfl⟩
    · exact ⟨_, rfl⟩

theorem threads_goOn (w : World Message) (t : ThreadId) (code : List (Op Message)) :
    (w.goOn t code).threads t = ⟨none, code⟩ := by
  rw [goOn, threads_setThread, if_pos rfl]

theorem can_return_timedOut {w : World Message} {tr : List (Event Message)} (h : Blocking w tr)
    (hat : w.threads caller = ⟨none, [.finishRpc .localTimeout, .ret true]⟩) :
    CanReturn parse w tr := by
  by_cases hfinished : w.state.finished = true
  · -- somebody else finishes the call
    have hexec : w.exec caller [.ret true] (.finishRpc .localTimeout) .none =
        some (w.goOn caller [.wait, .ret true], []) := by
      simp only [exec, hfinished, if_true]
    have hleads := leads_exec parse hat hexec
    exact .of_leads hleads (can_return_lost (h.leads hleads) (threads_goOn _ _ _) hfinished)
  · have hexec : w.exec caller [.ret true] (.finishRpc .localTimeout) .none =
        some ({ w with state := { w.state with finished := true } }.setThread caller
          ⟨some (.localTimeout, .dropTimer), [.ret true]⟩, [.won caller .localTimeout]) := by
      simp only [exec, hfinished, Bool.false_eq_true, if_false]
    have hleads := leads_exec parse hat hexec
    refine .of_leads hleads ?_
    obtain ⟨w', es, hleads', -, hthread, -⟩ := leads_finish parse
      (threads_setThread _ caller caller _) (h.leads hleads).done
    exact .of_leads hleads' (can_return_ret true hthread)

theorem can_return_waiting {w : World Message} {tr : List (Event Message)} (h : Blocking w tr)
    (hat : w.threads caller = ⟨none, [.waitFor]⟩) : CanReturn parse w tr := by
  by_cases hwait : w.waitDone = true
  · have hexec : w.exec caller [] .waitFor .none = some (w.goOn caller [.ret false], []) := by
      simp only [exec, hwait, if_true]
    exact .of_leads (leads_exec parse hat hexec) (can_return_ret false (threads_goOn _ _ _))
  · have hexec : w.exec caller [] .waitFor .timeout =
        some (w.goOn caller [.finishRpc .localTimeout, .ret true], []) := by
      simp only [exec, hwait, Bool.false_eq_true, if_false]
    have hleads := leads_exec parse hat hexec
    exact .of_leads hleads (can_return_timedOut (h.leads hleads) (threads_goOn _ _ _))

/-- The caller goes on in `callMethodInternal`, and waits then. -/
theorem can_return_calling {w : World Message} {tr : List (Event Message)} (h : Blocking w tr)
    {code : List (Op Message)} (hclean : Clean code)
    (hat : w.threads caller = ⟨none, code ++ [.waitFor]⟩) : CanReturn parse w tr := by
  induction hn : cost code using Nat.strongRecOn generalizing w tr code with
  | ind n ih =>
    cases code with
    | nil => exact can_return_waiting h hat
    | cons op rest =>
      obtain ⟨hop, hrest⟩ := hclean.of_cons
      obtain ⟨input, ⟨w', es⟩, hexec⟩ := exec_enabled w caller (rest ++ [.waitFor]) hop
      have hleads := leads_exec parse hat hexec
      have h' := h.leads hleads
      refine .of_leads hleads ?_
      have hcost : cost (op :: rest) = op.cost + cost rest := by simp [cost]
      rcases exec_clean hop hexec with
        ⟨w₁, next, rfl, -, -, -, hnext, hlt, -⟩ | ⟨f, rfl, -, rfl⟩
      · refine ih (cost (next ++ rest)) ?_ h' (hnext.append hrest) ?_ rfl
        · rw [cost_append]
          omega
        · rw [threads_goOn, List.append_assoc]
      · -- the call ends before its request is sent
        obtain ⟨w'', es', hleads', -, hthread, -⟩ := leads_finish parse
          (threads_setThread _ caller caller _) h'.done
        refine .of_leads hleads' (ih (cost rest) ?_ (h'.leads hleads') hrest hthread rfl)
        have hpos : 0 < (Op.finishRpc f : Op Message).cost := by simp [Op.cost]
        omega

theorem Blocking.can_return {w : World Message} {tr : List (Event Message)} (h : Blocking w tr) :
    CanReturn parse w tr := by
  obtain ⟨finishing, code, hat⟩ : ∃ finishing code, w.threads caller = ⟨finishing, code⟩ :=
    ⟨_, _, rfl⟩
  have hp := h.place
  rw [hat] at hp
  cases hp with
  | calling hclean =>
    cases finishing with
    | none => exact can_return_calling h hclean hat
    | some x =>
      obtain ⟨w', es, hleads, -, hthread, -⟩ := leads_finish parse hat h.done
      exact .of_leads hleads (can_return_calling (h.leads hleads) hclean hthread)
  | woken => exact can_return_ret false hat
  | timedOut => exact can_return_timedOut h hat
  | finishing hfinished =>
    obtain ⟨w', es, hleads, -, hthread, -⟩ := leads_finish parse hat h.done
    exact .of_leads hleads (can_return_ret true hthread)
  | lost hfinished => exact can_return_lost h hat hfinished
  | late hfinished => exact can_return_ret true hat
  | back hclean hreturned =>
    obtain ⟨code, hcode⟩ := hreturned
    exact ⟨w, [], .refl w, code, by simpa using hcode⟩

/-! ## What it returns -/

/-- A response without an error was parsed into the response object of the call. -/
def Answered (parse : Tcp.Bytes → Message × Bool) (es : List (Event Message)) : Prop :=
  ∃ t m, m.errCode = 0 ∧ (parse m.pbData).2 = true ∧
    .wrote t (.response (.tinyPB m)) (.response (parse m.pbData).1) ∈ es

/-- `CallMethodBlocking` tells the truth with `code`. -/
def Truthful (parse : Tcp.Bytes → Message × Bool) (w : World Message)
    (es : List (Event Message)) (code : Int32) : Prop :=
  (code = 0 ↔ Answered parse es) ∧ (code = 0 → w.controller.isFailed = false)

/-- The caller is at its `finishRpc`, as its wait timed out. -/
def World.timingOut (w : World Message) : Bool :=
  match w.threads caller with
  | ⟨none, .finishRpc .localTimeout :: _⟩ => true
  | _ => false

/-- The local timeout does not cross a response that came to a result: the wait does not
    time out while one is inside `finishRpc`, and none wins while the caller is at its own. -/
def Uncrossed (parse : Tcp.Bytes → Message × Bool) (w : World Message) : Label → Prop
  | .thread _ .timeout =>
    ∀ t f s, (w.threads t).finishing = some (f, s) → f.succeeds parse = false
  | .thread t _ =>
    ∀ f rest, w.threads t = ⟨none, .finishRpc f :: rest⟩ → f.succeeds parse = true →
      w.state.finished = false → w.timingOut = false
  | _ => True

/-- What a finisher owes the error code. -/
theorem due_errorCode {f : Finisher} {ws : List (Write Message)} (h : Due parse f ws)
    {o : Owned Message} (ho : o.errorCode = 0) :
    (ws.foldl Owned.write o).errorCode = 0 ↔ f.succeeds parse = true := by
  obtain ⟨v, hconnect, rfl⟩ := h
  cases f with
  | preSend error =>
    cases error <;> simp [beforeDone, PreSend.writes, setError, Owned.write, Finisher.succeeds,
      error.kRpcPoolExhausted, error.kRpcPeerAddr, error.kFailedSerialize]
  | connect =>
    simpa [beforeDone, setError, Owned.write, Finisher.succeeds] using hconnect rfl
  | response msg =>
    cases msg with
    | other =>
      simp [beforeDone, setError, Owned.write, Finisher.succeeds, error.kFailedDeserialize]
    | tinyPB m =>
      rw [beforeDone]
      split
      · rename_i hcode
        simpa [setError, Owned.write, Finisher.succeeds] using
          fun h => absurd h (by simpa using hcode)
      · rename_i hcode
        cases hparse : (parse m.pbData).2 <;>
          simp_all [setError, Owned.write, Finisher.succeeds, error.kFailedDeserialize]
  | timer | localTimeout =>
    simp [beforeDone, setError, startCancel, Owned.write, Finisher.succeeds, error.kRpcCallTimeout]

/-- A finisher that succeeds only writes the response. -/
theorem due_succeeds {f : Finisher} {ws : List (Write Message)} (h : Due parse f ws)
    (hf : f.succeeds parse = true) : ∃ m, f = .response (.tinyPB m) ∧ m.errCode = 0 ∧
      (parse m.pbData).2 = true ∧ ws = [.response (parse m.pbData).1] := by
  obtain ⟨v, -, rfl⟩ := h
  cases f with
  | response msg =>
    cases msg with
    | other => exact absurd hf (by simp [Finisher.succeeds])
    | tinyPB m =>
      simp only [Finisher.succeeds, Bool.and_eq_true, beq_iff_eq] at hf
      exact ⟨m, rfl, hf.1, hf.2, by simp [beforeDone, hf.1, hf.2]⟩
  | _ => exact absurd hf (by simp [Finisher.succeeds])

/-! ### What a step adds -/

/-- Inside `finishRpc` nobody wins or returns. -/
theorem finish_events {w : World Message} {t : ThreadId} {f : Finisher} {stage : Stage Message}
    {code : List (Op Message)} : ∀ e ∈ (w.finish parse t f code stage).2,
      (∀ u g, e ≠ .won u g) ∧ ∀ c, e ≠ .returned c := by
  cases stage with
  | dropTimer | cancelRead | beforeDone => simp [finish]
  | writing writes => cases writes <;> simp [finish]
  | runDone =>
    simp only [finish]
    split <;> simp

/-- A thread that wins was at its compare-exchange; one that returns was at its return. -/
theorem step_event {w w' : World Message} {l : Label} {es : List (Event Message)}
    {e : Event Message} (h : step parse w l = some (w', es)) (he : e ∈ es) :
    match e with
    | .won t f => l = .thread t .none ∧ (∃ rest, w.threads t = ⟨none, .finishRpc f :: rest⟩) ∧
        w.state.finished = false
    | .returned c => ∃ t rest b, w.threads t = ⟨none, .ret b :: rest⟩ ∧ c = w.result b
    | _ => True := by
  have hmoves := callMoves_of_step h
  cases hmoves with
  | finishes hat =>
    obtain ⟨hwon, hreturned⟩ := finish_events e he
    cases e with
    | won t g => exact absurd rfl (hwon t g)
    | returned c => exact absurd rfl (hreturned c)
    | _ => trivial
  | execs hat hexec =>
    rename_i t op rest input
    have hdoes := does_of_exec hexec
    cases hdoes with
    | won hopen =>
      obtain rfl := List.mem_singleton.mp he
      exact ⟨rfl, ⟨rest, hat⟩, hopen⟩
    | returned =>
      rename_i b
      obtain rfl := List.mem_singleton.mp he
      exact ⟨t, rest, b, hat, rfl⟩
    | _ => exact absurd he (by simp)
  | _ => exact absurd he (by simp)

/-- A finisher keeps the code of its thread, and what the other threads do. -/
theorem finish_threads (w : World Message) (t : ThreadId) (f : Finisher) (stage : Stage Message)
    (code : List (Op Message)) :
    ∃ finishing, ∀ u, (w.finish parse t f code stage).1.threads u =
      if u = t then ⟨finishing, code⟩ else w.threads u := by
  have next : ∀ {w₁ : World Message} {finishing : Option (Finisher × Stage Message)},
      w₁.threads = w.threads → ∃ finishing', ∀ u, (w₁.setThread t ⟨finishing, code⟩).threads u =
        if u = t then ⟨finishing', code⟩ else w.threads u := by
    intro w₁ finishing hthreads
    refine ⟨finishing, fun u => ?_⟩
    rw [threads_setThread, hthreads]
  cases stage with
  | dropTimer | cancelRead =>
    simp only [finish]
    split <;> exact next rfl
  | beforeDone => exact next rfl
  | writing writes =>
    cases writes with
    | nil => exact next rfl
    | cons x xs => exact next (sameGate_write w x).threads
  | runDone =>
    simp only [finish]
    split
    · exact next rfl
    · exact next rfl
    · refine next ?_
      rfl

theorem finish_code {w : World Message} {t : ThreadId} {f : Finisher} {stage : Stage Message}
    {code : List (Op Message)} (hat : w.threads t = ⟨some (f, stage), code⟩) (u : ThreadId) :
    ((w.finish parse t f code stage).1.threads u).code = (w.threads u).code := by
  obtain ⟨finishing, hthreads⟩ := @finish_threads _ parse w t f stage code
  rw [hthreads]
  split
  · rename_i hut
    rw [hut, hat]
  · rfl

theorem execs_others {w w' : World Message} {t : ThreadId} {rest : List (Op Message)}
    {op : Op Message} {es : List (Event Message)} (h : Execs w t rest op w' es) {u : ThreadId}
    (hu : u ≠ t) : w'.threads u = w.threads u := by
  cases h with
  | goOn hsame howned hcode => rw [goOn, threads_setThread, if_neg hu, hsame.threads]
  | won hopen => rw [threads_setThread, if_neg hu]
  | returned => rw [goOn, threads_setThread, if_neg hu]

/-- An operation of `CallMethodBlocking` that puts the return of `-1` ahead of its thread. -/
theorem exec_late {w w' : World Message} {t : ThreadId} {rest : List (Op Message)}
    {op : Op Message} {input : Input} {es : List (Event Message)}
    (h : w.exec t rest op input = some (w', es)) (hlate : .ret true ∈ (w'.threads t).code) :
    .ret true ∈ rest ∨ input = .timeout ∧ w.waitDone = false ∧ es = [] := by
  by_cases hop : op.isWait = false
  · rcases exec_clean hop h with ⟨w₁, next, rfl, -, -, -, hnext, -⟩ | ⟨f, -, -, rfl⟩
    · rw [threads_goOn] at hlate
      rcases List.mem_append.mp hlate with hmem | hmem
      · exact absurd (hnext _ hmem) (by simp [Op.isWait])
      · exact Or.inl hmem
    · rw [threads_setThread, if_pos rfl] at hlate
      exact Or.inl hlate
  · have hdoes := does_of_exec h
    cases hdoes with
    | timedOut hunset => exact Or.inr ⟨rfl, hunset, rfl⟩
    | won =>
      rw [threads_setThread, if_pos rfl] at hlate
      exact Or.inl hlate
    | lost =>
      rw [threads_goOn] at hlate
      exact Or.inl hlate
    | waits | woken | waited | returned =>
      rw [threads_goOn] at hlate
      exact Or.inl (by simpa using hlate)
    | _ => exact absurd rfl hop

/-- The caller is on its way to return `-1` only since its wait timed out. -/
theorem step_late {w w' : World Message} {l : Label} {es : List (Event Message)}
    (h : step parse w l = some (w', es)) (hlate : .ret true ∈ (w'.threads caller).code) :
    .ret true ∈ (w.threads caller).code ∨
      l = .thread caller .timeout ∧ w.waitDone = false ∧ es = [] := by
  have spawn : ∀ {w₁ : World Message} {t : ThreadId} {op : Op Message}, w₁.threads = w.threads →
      op ≠ .ret true → .ret true ∈ ((w₁.goOn t [op]).threads caller).code →
      .ret true ∈ (w.threads caller).code := by
    intro w₁ t op hthreads hop hmem
    rw [goOn, threads_setThread] at hmem
    split at hmem
    · exact absurd (List.mem_singleton.mp hmem).symm hop
    · rwa [hthreads] at hmem
  have hmoves := callMoves_of_step h
  cases hmoves with
  | finishes hat =>
    rw [finish_code hat] at hlate
    exact Or.inl hlate
  | execs hat hexec =>
    rename_i t op rest input
    by_cases ht : caller = t
    · subst ht
      rcases exec_late hexec hlate with hmem | ⟨rfl, hwait, hes⟩
      · exact Or.inl (by rw [hat]; exact List.mem_cons_of_mem _ hmem)
      · exact Or.inr ⟨rfl, hwait, hes⟩
    · rw [execs_others (execs_of_exec hexec) ht] at hlate
      exact Or.inl hlate
  | timerFires | responseArrives | connectReturns =>
    refine Or.inl (spawn ?_ ?_ hlate)
    · rfl
    · simp
  | readReplaced => exact Or.inl hlate

/-- A place with the return of `-1` ahead, before the gate of the call is taken. -/
theorem CallerPlace.timedOut_of {finished returned : Prop}
    {finishing : Option (Finisher × Stage Message)} {code : List (Op Message)}
    (h : CallerPlace finished returned finishing code) (hlate : .ret true ∈ code)
    (hopen : ¬ finished) : finishing = none ∧ code = [.finishRpc .localTimeout, .ret true] := by
  cases h with
  | calling hclean =>
    rcases List.mem_append.mp hlate with hmem | hmem
    · exact absurd (hclean _ hmem) (by simp [Op.isWait])
    · exact absurd hmem (by simp)
  | woken => exact absurd hlate (by simp)
  | timedOut => exact ⟨rfl, rfl⟩
  | back hclean hreturned => exact absurd (hclean _ hlate) (by simp [Op.isWait])
  | finishing hf | lost hf | late hf => exact absurd hf hopen

/-! ### The truth -/

/-- A `CallMethodBlocking` whose local timeout crossed no response that came to a result: if
    it is to return `-1` the winner is another one, and what it has returned is the truth. -/
structure Truth (parse : Tcp.Bytes → Message × Bool) (o : Owned Message) (w : World Message)
    (p : Gate.Phase (ThreadId × Finisher)) (es : List (Event Message)) : Prop where
  account : Account parse o w p es
  blocking : Blocking w es
  late : .ret true ∈ (w.threads caller).code →
    ∀ t f, .won t f ∈ es → f.succeeds parse = false
  returned : ∀ code, .returned code ∈ es →
    ∃ t f, .won t f ∈ es ∧ (code = 0 ↔ f.succeeds parse = true)

/-- Who returns tells by the winner. -/
theorem Truth.result {o : Owned Message} {w : World Message}
    {p : Gate.Phase (ThreadId × Finisher)} {es : List (Event Message)}
    (h : Truth parse o w p es) (ho : o.errorCode = 0) {t : ThreadId} {rest : List (Op Message)}
    {b : Bool} (hat : w.threads t = ⟨none, .ret b :: rest⟩) :
    ∃ u f, .won u f ∈ es ∧ (w.result b = 0 ↔ f.succeeds parse = true) := by
  -- the closure has run, so the writes of the winner are done
  have hmay := h.account.keeps.mayDo hat
  have hwoken : w.Woken := hmay.resolve_left (by simp [guarded])
  obtain ⟨⟨u, f⟩, rfl⟩ := h.account.keeps.woken hwoken.2
  have hwon : .won u f ∈ es := (won_mem_iff h.account.log u f).mpr (Or.inr rfl)
  have hleft : (w.threads u).finishing = none := by
    cases hfinishing : (w.threads u).finishing with
    | none => rfl
    | some x => exact absurd (h.account.keeps.winner u x.1 x.2 hfinishing) (by simp)
  refine ⟨u, f, hwon, ?_⟩
  cases b with
  | true =>
    have ht : t = caller := by
      by_contra hne
      have hclean := h.blocking.others t hne
      rw [hat] at hclean
      exact absurd hclean.of_cons.1 (by simp [Op.isWait])
    subst ht
    have hlate := h.late (by rw [hat]; simp) u f hwon
    simp [World.result, hlate]
  | false =>
    obtain ⟨ws, hdue, -, howned⟩ := h.account.through hwon hleft
    have hcode : w.controller.errorCode = 0 ↔ f.succeeds parse = true := by
      rw [← due_errorCode hdue ho, ← howned]
      rfl
    rw [← hcode]
    simp only [World.result, h.blocking.args, Bool.true_and, Bool.false_eq_true, if_false]
    split
    · rfl
    · rename_i hzero
      simpa using hzero

theorem step_truth {o : Owned Message} {w w' : World Message}
    {p : Gate.Phase (ThreadId × Finisher)} {tr es : List (Event Message)} {l : Label}
    (h : Truth parse o w p tr) (ho : o.errorCode = 0) (hok : Uncrossed parse w l)
    (hstep : step parse w l = some (w', es)) : ∃ p', Truth parse o w' p' (tr ++ es) := by
  obtain ⟨p', haccount⟩ := step_account h.account hstep
  refine ⟨p', haccount, step_blocking h.blocking hstep, ?_, ?_⟩
  · intro hlate t f hwon
    rcases step_late hstep hlate with hmem | ⟨rfl, hwait, rfl⟩
    · rcases List.mem_append.mp hwon with hwon | hwon
      · exact h.late hmem t f hwon
      · -- the winner overtakes the caller at its `finishRpc`
        obtain ⟨rfl, ⟨rest, hat⟩, hopen⟩ := step_event hstep hwon
        obtain ⟨hnone, hcode⟩ := h.blocking.place.timedOut_of hmem (by simp [hopen])
        have htiming : w.timingOut = true := by
          have hthread : w.threads caller = ⟨none, [.finishRpc .localTimeout, .ret true]⟩ := by
            rw [← hnone, ← hcode]
          simp [World.timingOut, hthread]
        by_contra hsucceeds
        have := hok f rest hat (by simpa using hsucceeds) hopen
        exact absurd (htiming.symm.trans this) (by simp)
    · -- the wait times out, and the winner is inside `finishRpc`
      rw [List.append_nil] at hwon
      rcases h.blocking.winner t f hwon with hset | ⟨s, hs⟩
      · exact absurd (hwait.symm.trans hset) (by simp)
      · exact hok t f s hs
  · intro code hcode
    rcases List.mem_append.mp hcode with hcode | hcode
    · obtain ⟨t, f, hwon, hiff⟩ := h.returned code hcode
      exact ⟨t, f, List.mem_append_left _ hwon, hiff⟩
    · obtain ⟨t, rest, b, hat, rfl⟩ := step_event hstep hcode
      obtain ⟨u, f, hwon, hiff⟩ := h.result ho hat
      exact ⟨u, f, List.mem_append_left _ hwon, hiff⟩

theorem call_blocking (channel : RpcChannel) {args : Arguments} (timeoutMs : Int)
    (controller : RpcController) (response : Message) (hargs : args.passes = true) :
    Blocking (World.call channel args (.callMethodBlocking timeoutMs) controller response) [] := by
  have hthreads := call_threads channel (.callMethodBlocking timeoutMs) controller response hargs
  have hclean : Clean [(.acquire : Op Message)] := by simp [Clean, Op.isWait]
  refine ⟨?_, ?_, ?_, fun t f hwon => absurd hwon (by simp), ?_, ?_⟩
  · rw [World.call, if_pos hargs]
    simp only [Arguments.passes, Bool.and_eq_true] at hargs
    exact hargs.1.1.1
  · rw [World.call, if_pos hargs]
    rfl
  · rw [World.call, if_pos hargs]
    exact fun hf => absurd hf (by simp [goOn, World.setThread])
  · intro t ht
    rw [hthreads, if_neg ht]
    exact fun x hx => absurd hx (by simp)
  · rw [hthreads, if_pos rfl]
    exact .calling hclean

/-- What is left of the winner's writes tells whether the call was answered. -/
theorem Account.answered_iff {o : Owned Message} {w : World Message}
    {p : Gate.Phase (ThreadId × Finisher)} {es : List (Event Message)} {t : ThreadId}
    {f : Finisher} (h : Account parse o w p es) (hwon : .won t f ∈ es)
    (hleft : (w.threads t).finishing = none) :
    Answered parse es ↔ f.succeeds parse = true := by
  obtain ⟨ws, hdue, heq, -⟩ := h.through hwon hleft
  have hmem : ∀ u g x, .wrote u g x ∈ es ↔ u = t ∧ g = f ∧ x ∈ ws := by
    intro u g x
    have hwrote : .wrote u g x ∈ es ↔ (u, g, x) ∈ es.filterMap Event.wroteBy := by
      rw [List.mem_filterMap]
      constructor
      · exact fun he => ⟨_, he, rfl⟩
      · rintro ⟨e, he, hx⟩
        cases e with
        | wrote v k y =>
          obtain ⟨rfl, rfl, rfl⟩ : v = u ∧ k = g ∧ y = x := by simpa [Event.wroteBy] using hx
          exact he
        | _ => exact absurd hx (by simp [Event.wroteBy])
    rw [hwrote, heq, List.mem_map]
    constructor
    · rintro ⟨y, hy, heq'⟩
      obtain ⟨rfl, rfl, rfl⟩ : t = u ∧ f = g ∧ y = x := by simpa using heq'
      exact ⟨rfl, rfl, hy⟩
    · rintro ⟨rfl, rfl, hx⟩
      exact ⟨x, hx, rfl⟩
  constructor
  · rintro ⟨u, m, hcode, hparse, he⟩
    obtain ⟨-, rfl, -⟩ := (hmem _ _ _).mp he
    simp [Finisher.succeeds, hcode, hparse]
  · intro hsucceeds
    obtain ⟨m, rfl, hcode, hparse, rfl⟩ := due_succeeds hdue hsucceeds
    exact ⟨t, m, hcode, hparse, (hmem _ _ _).mpr ⟨rfl, rfl, by simp⟩⟩

theorem Truth.truthful {o : Owned Message} {w : World Message}
    {p : Gate.Phase (ThreadId × Finisher)} {es : List (Event Message)}
    (h : Truth parse o w p es) (ho : o.isFailed = false) {code : Int32}
    (hcode : .returned code ∈ es) : Truthful parse w es code := by
  obtain ⟨t, f, hwon, hiff⟩ := h.returned code hcode
  obtain ⟨i, rfl⟩ := h.account.log.closed_of_leave (List.mem_map_of_mem hcode)
  have hleft : (w.threads t).finishing = none := by
    cases hfinishing : (w.threads t).finishing with
    | none => rfl
    | some x => exact absurd (h.account.keeps.winner t x.1 x.2 hfinishing) (by simp)
  refine ⟨hiff.trans (h.account.answered_iff hwon hleft).symm, fun hzero => ?_⟩
  obtain ⟨ws, hdue, -, howned⟩ := h.account.through hwon hleft
  obtain ⟨m, -, -, -, rfl⟩ := due_succeeds hdue (hiff.mp hzero)
  have hfailed : w.owned.isFailed = o.isFailed := by
    rw [howned]
    rfl
  exact hfailed.trans ho

/-! ### Arguments that are refused -/

/-- A call without a `RequestState`: only its caller has steps, and returns `code`. -/
structure Refused (code : Int32) (w : World Message) (es : List (Event Message)) : Prop where
  armed : w.armed = false
  readCallback : w.client.readCallback = false
  connecting : w.client.connecting = false
  others : ∀ t, t ≠ caller → w.threads t = ⟨none, []⟩
  waitDone : w.waitDone = true
  result : w.result false = code
  place : (w.threads caller = ⟨none, [.waitFor]⟩ ∨ w.threads caller = ⟨none, [.ret false]⟩) ∧
    es = [] ∨ w.threads caller = ⟨none, []⟩ ∧ es = [.returned code]

/-- The caller goes on to `thread`. -/
theorem Refused.goOn {code : Int32} {w : World Message} {tr es : List (Event Message)}
    {rest : List (Op Message)} (h : Refused code w tr)
    (hplace : rest = [.ret false] ∧ es = [] ∨ rest = [] ∧ es = [.returned code]) :
    Refused code (w.goOn caller rest) es := by
  refine ⟨h.armed, h.readCallback, h.connecting, ?_, h.waitDone, h.result, ?_⟩
  · intro t ht
    rw [World.goOn, threads_setThread, if_neg ht]
    exact h.others t ht
  · rw [threads_goOn]
    rcases hplace with ⟨rfl, rfl⟩ | ⟨rfl, rfl⟩
    · exact Or.inl ⟨Or.inr rfl, rfl⟩
    · exact Or.inr ⟨rfl, rfl⟩

theorem step_refused {code : Int32} {w w' : World Message} {tr es : List (Event Message)}
    {l : Label} (h : Refused code w tr) (hstep : step parse w l = some (w', es)) :
    Refused code w' (tr ++ es) := by
  have hmoves := callMoves_of_step hstep
  cases hmoves with
  | finishes hat =>
    rename_i t f stage code'
    by_cases ht : t = caller
    · subst ht
      rcases h.place with ⟨hthread | hthread, -⟩ | ⟨hthread, -⟩ <;>
        exact absurd (hat.symm.trans hthread) (by simp)
    · exact absurd (hat.symm.trans (h.others t ht)) (by simp)
  | execs hat hexec =>
    rename_i t op rest input
    by_cases ht : t = caller
    · subst ht
      have hdoes := does_of_exec hexec
      rcases h.place with ⟨hthread | hthread, rfl⟩ | ⟨hthread, -⟩
      · obtain ⟨rfl, rfl⟩ : op = .waitFor ∧ rest = [] := by simpa using hat.symm.trans hthread
        cases hdoes with
        | woken => exact h.goOn (Or.inl ⟨rfl, rfl⟩)
        | timedOut hunset => exact absurd (h.waitDone.symm.trans hunset) (by simp)
      · obtain ⟨rfl, rfl⟩ : op = .ret false ∧ rest = [] := by
          simpa using hat.symm.trans hthread
        cases hdoes with
        | returned => exact h.goOn (Or.inr ⟨rfl, by rw [h.result]; rfl⟩)
      · exact absurd (hat.symm.trans hthread) (by simp)
    · exact absurd (hat.symm.trans (h.others t ht)) (by simp)
  | timerFires harmed => exact absurd (h.armed.symm.trans harmed) (by simp)
  | responseArrives hread => exact absurd (h.readCallback.symm.trans hread) (by simp)
  | connectReturns hconnecting => exact absurd (h.connecting.symm.trans hconnecting) (by simp)
  | readReplaced =>
    rw [List.append_nil]
    exact ⟨h.armed, rfl, h.connecting, h.others, h.waitDone, h.result, h.place⟩

theorem Refused.can_return {code : Int32} {w : World Message} {tr : List (Event Message)}
    (h : Refused code w tr) : CanReturn parse w tr := by
  rcases h.place with ⟨hthread | hthread, -⟩ | ⟨-, rfl⟩
  · have hexec : w.exec caller [] .waitFor .none = some (w.goOn caller [.ret false], []) := by
      simp only [exec, h.waitDone, if_true]
    exact .of_leads (leads_exec parse hthread hexec) (can_return_ret false (threads_goOn _ _ _))
  · exact can_return_ret false hthread
  · exact ⟨w, [], .refl w, code, by simp⟩

/-- The caller waits, and nobody else has anything to do. -/
theorem refused_waitFor {w : World Message} (harmed : w.armed = false)
    (hclient : w.client = {}) (hthreads : ∀ t, w.threads t = ⟨none, []⟩)
    (hwait : w.waitDone = true) :
    Refused (w.result false) (w.goOn caller [.waitFor]) [] := by
  refine ⟨harmed, congrArg TcpClient.readCallback hclient, congrArg TcpClient.connecting hclient,
    fun t ht => ?_, hwait, rfl, Or.inl ⟨Or.inl (threads_goOn _ _ _), rfl⟩⟩
  rw [World.goOn, threads_setThread, if_neg ht]
  exact hthreads t

theorem refused_of_world {w : World Message} {args : Arguments} (timeoutMs : Int)
    (hargs : w.args = args) (harmed : w.armed = false) (hclient : w.client = {})
    (hthreads : ∀ t, w.threads t = ⟨none, []⟩) :
    Refused (if args.controller then error.kRpcChannelInit else 0)
      (w.refused (.callMethodBlocking timeoutMs)) [] := by
  subst hargs
  rw [World.refused]
  cases hctrl : w.args.controller with
  | false =>
    have hresult : ({ w with waitDone := true } : World Message).result false = 0 := by
      simp [World.result, hctrl]
    have hrefused : Refused (({ w with waitDone := true } : World Message).result false)
        (({ w with waitDone := true } : World Message).goOn caller [.waitFor]) [] :=
      refused_waitFor harmed hclient hthreads rfl
    rw [hresult] at hrefused
    exact hrefused
  | true =>
    let v : World Message :=
      { (setError error.kRpcChannelInit
        (text "method, controller, request or response NULL")).foldl World.write w with
        waitDone := true }
    have hresult : v.result false = error.kRpcChannelInit := by
      simp [v, World.result, World.write, setError, hctrl, error.kRpcChannelInit]
    have hrefused : Refused (v.result false) (v.goOn caller [.waitFor]) [] :=
      refused_waitFor harmed hclient hthreads rfl
    rw [hresult] at hrefused
    exact hrefused

theorem call_refused (channel : RpcChannel) {args : Arguments} (timeoutMs : Int)
    (controller : RpcController) (response : Message) (hargs : ¬ args.passes = true) :
    Refused (if args.controller then error.kRpcChannelInit else 0)
      (World.call channel args (.callMethodBlocking timeoutMs) controller response) [] := by
  rw [World.call, if_neg hargs]
  refine refused_of_world timeoutMs ?_ ?_ ?_ ?_
  · rfl
  · rfl
  · rfl
  · exact fun _ => rfl

/-- In every run in which the local timeout crosses no response that came to a result,
    `CallMethodBlocking` can go on to return, and what it returns is the truth exactly if its
    controller is an `RpcController`: with a null or foreign one it returns 0. -/
theorem returns_truth (parse : Tcp.Bytes → Message × Bool) (channel : RpcChannel)
    (args : Arguments) (timeoutMs : Int) (controller : RpcController) (response : Message)
    (ls : List Label) (w : World Message) (es : List (Event Message))
    (hcode : controller.errorCode = 0) (hfailed : controller.isFailed = false)
    (hok : RunOk (step parse) (Uncrossed parse)
      (World.call channel args (.callMethodBlocking timeoutMs) controller response) ls)
    (hrun : run (step parse)
      (World.call channel args (.callMethodBlocking timeoutMs) controller response) ls =
        some (w, es)) :
    CanReturn parse w es ∧
      ∀ code, .returned code ∈ es → (Truthful parse w es code ↔ args.controller = true) := by
  by_cases hargs : args.passes = true
  · have hctrl : args.controller = true := by
      simp only [Arguments.passes, Bool.and_eq_true] at hargs
      exact hargs.1.1.1
    have hinit : Truth parse (World.call channel args (.callMethodBlocking timeoutMs) controller
        response).owned (World.call channel args (.callMethodBlocking timeoutMs) controller
          response) .open [] := by
      refine ⟨call_account channel _ controller response hargs,
        call_blocking channel timeoutMs controller response hargs,
        fun _ t f hwon => absurd hwon (by simp), fun code hret => absurd hret (by simp)⟩
    have howned : (World.call channel args (.callMethodBlocking timeoutMs) controller
        response).owned.errorCode = 0 ∧ (World.call channel args (.callMethodBlocking timeoutMs)
          controller response).owned.isFailed = false := by
      simp [World.call, hargs, hctrl, Call.prepare, World.owned, goOn, World.setThread, hcode,
        hfailed]
    have key : ∃ p, Truth parse (World.call channel args (.callMethodBlocking timeoutMs)
        controller response).owned w p ([] ++ es) := by
      refine runOk_induction (fun v tr => ∃ p, Truth parse _ v p tr) ?_ [] ⟨.open, hinit⟩ hok hrun
      rintro v tr l v' es' ⟨p, hp⟩ hu hs
      exact step_truth hp howned.1 hu hs
    obtain ⟨p, htruth⟩ := key
    rw [List.nil_append] at htruth
    refine ⟨htruth.blocking.can_return, fun code hret => ?_⟩
    exact iff_of_true (htruth.truthful howned.2 hret) hctrl
  · have hinit := call_refused channel timeoutMs controller response hargs
    have hrefused := run_induction (fun v tr => Refused _ v tr)
      (fun v tr l v' es' hv hs => step_refused hv hs) [] hinit hrun
    rw [List.nil_append] at hrefused
    refine ⟨hrefused.can_return, fun code hret => ?_⟩
    -- nobody wins, so nothing is written
    rcases hrefused.place with ⟨-, rfl⟩ | ⟨-, rfl⟩
    · exact absurd hret (by simp)
    · obtain rfl : code = _ := by simpa using hret
      have hanswered : ∀ c, ¬ Answered parse [(.returned c : Event Message)] := by
        rintro c ⟨t, m, -, -, hmem⟩
        exact absurd hmem (by simp)
      cases args.controller <;> simp [Truthful, hanswered, error.kRpcChannelInit]

/-- The wait of `CallMethodBlocking` times out. -/
def Label.isTimeout : Label → Bool
  | .thread _ .timeout => true
  | _ => false

theorem uncrossed_of_no_timeout {w : World Message} {l : Label}
    (h : l.isTimeout = false ∧ w.timingOut = false) : Uncrossed parse w l := by
  cases l with
  | thread t input =>
    cases input with
    | timeout => exact absurd h.1 (by simp [Label.isTimeout])
    | _ => exact fun _ _ _ _ _ => h.2
  | _ => trivial

/-- The response that the runs below receive. -/
def twoBytes : Coder.TinyPBProtocol := { msgId := [49], pbData := [7, 7] }

/-- A call over a pooled client up to its wait, and the arrival of its response. -/
def untilResponse : List Label :=
  [.thread 0 (.found true), .thread 0 (.generated [49]), .thread 0 (.serialized true),
    .thread 0 .none, .thread 0 .none, .thread 0 .none, .thread 0 .none, .thread 0 .none,
    .thread 0 .none, .responseArrives 1 (.tinyPB twoBytes), .thread 1 .none]

/-- The response is parsed before the wait times out. -/
theorem returns_truth_answered :
    ∃ (w : World Nat) (es : List (Event Nat)),
      run (step fun data => (data.length, true))
        (World.call ⟨true, true, false, []⟩ ⟨true, true, true, true⟩ (.callMethodBlocking 5) {} 0)
        (untilResponse ++ [.thread 1 .none, .thread 1 .none, .thread 1 .none, .thread 1 .none,
          .thread 1 .none, .thread 1 .none, .thread 0 .none, .thread 0 .none]) = some (w, es) ∧
      .returned 0 ∈ es ∧ Truthful (fun data => (data.length, true)) w es 0 := by
  have hrun : (run (step fun data => (data.length, true))
      (World.call ⟨true, true, false, []⟩ ⟨true, true, true, true⟩ (.callMethodBlocking 5) {} 0)
      (untilResponse ++ [.thread 1 .none, .thread 1 .none, .thread 1 .none, .thread 1 .none,
        .thread 1 .none, .thread 1 .none, .thread 0 .none, .thread 0 .none])).map
      (fun r => decide (.returned 0 ∈ r.2)) = some true := by
    decide +kernel
  obtain ⟨⟨w, es⟩, hw, hret⟩ := Option.map_eq_some_iff.mp hrun
  have hmem := of_decide_eq_true hret
  have hok : RunOk (step fun data => (data.length, true))
      (fun (w : World Nat) l => l.isTimeout = false ∧ w.timingOut = false)
      (World.call ⟨true, true, false, []⟩ ⟨true, true, true, true⟩ (.callMethodBlocking 5) {} 0)
      (untilResponse ++ [.thread 1 .none, .thread 1 .none, .thread 1 .none, .thread 1 .none,
        .thread 1 .none, .thread 1 .none, .thread 0 .none, .thread 0 .none]) := by
    decide +kernel
  refine ⟨w, es, hw, hmem, ?_⟩
  exact ((returns_truth _ _ _ _ _ _ _ w es rfl rfl
    (hok.mono fun _ _ => uncrossed_of_no_timeout) hw).2 0 hmem).mpr rfl

/-- The wait times out while the response is being parsed, and the caller returns `-1` with
    an answer; and without a controller it returns 0 with none. -/
theorem returns_untruth :
    (∃ (w : World Nat) (es : List (Event Nat)),
      run (step fun data => (data.length, true))
        (World.call ⟨true, true, false, []⟩ ⟨true, true, true, true⟩ (.callMethodBlocking 5) {} 0)
        (untilResponse ++ [.thread 0 .timeout, .thread 0 .none, .thread 1 .none, .thread 1 .none,
          .thread 1 .none, .thread 1 .none, .thread 1 .none, .thread 1 .none, .thread 0 .none,
          .thread 0 .none]) = some (w, es) ∧
      .returned (-1) ∈ es ∧ ¬ Truthful (fun data => (data.length, true)) w es (-1)) ∧
    ∃ (w : World Nat) (es : List (Event Nat)),
      run (step fun data => (data.length, true))
        (World.call ⟨true, true, false, []⟩ ⟨true, false, true, true⟩ (.callMethodBlocking 5) {} 0)
        [.thread 0 .none, .thread 0 .none] = some (w, es) ∧
      .returned 0 ∈ es ∧ ¬ Truthful (fun data => (data.length, true)) w es 0 := by
  constructor
  · have hrun : (run (step fun data => (data.length, true))
        (World.call ⟨true, true, false, []⟩ ⟨true, true, true, true⟩ (.callMethodBlocking 5) {} 0)
        (untilResponse ++ [.thread 0 .timeout, .thread 0 .none, .thread 1 .none, .thread 1 .none,
          .thread 1 .none, .thread 1 .none, .thread 1 .none, .thread 1 .none, .thread 0 .none,
          .thread 0 .none])).map (fun r => decide (.returned (-1) ∈ r.2 ∧
            .wrote 1 (.response (.tinyPB twoBytes)) (.response 2) ∈ r.2)) = some true := by
      decide +kernel
    obtain ⟨⟨w, es⟩, hw, hdone⟩ := Option.map_eq_some_iff.mp hrun
    obtain ⟨hret, hwrote⟩ := of_decide_eq_true hdone
    refine ⟨w, es, hw, hret, fun htrue => ?_⟩
    exact absurd (htrue.1.mpr ⟨1, twoBytes, rfl, rfl, hwrote⟩) (by decide)
  · have hrun : (run (step fun data => (data.length, true))
        (World.call ⟨true, true, false, []⟩ ⟨true, false, true, true⟩ (.callMethodBlocking 5) {} 0)
        [.thread 0 .none, .thread 0 .none]).map (fun r => decide (r.2 = [.returned 0])) =
          some true := by
      decide +kernel
    obtain ⟨⟨w, es⟩, hw, hdone⟩ := Option.map_eq_some_iff.mp hrun
    obtain rfl : es = [.returned 0] := of_decide_eq_true hdone
    refine ⟨w, _, hw, by simp, fun htrue => ?_⟩
    obtain ⟨t, m, -, -, hmem⟩ := htrue.1.mp rfl
    exact absurd hmem (by simp)

end RocketRpc.Rpc
