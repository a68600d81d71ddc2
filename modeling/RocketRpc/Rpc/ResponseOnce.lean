import RocketRpc.Lib.Machine
import RocketRpc.Lib.Tally
import RocketRpc.Rpc.RpcDispatcher

/-
  Every request is answered once, and the requests in flight are counted.

  `step_moves` says what a step does to the requests: one comes, one moves on by one place,
  or none is touched. `Accounted` keeps the counters and the responses beside the places of
  the requests; `Handed` ties the places to the queue of the pool and its workers, so that a
  request that is not answered can always go on.
-/

namespace RocketRpc.Rpc

open RocketRpc.Tcp RocketRpc.Coder RocketRpc.Common Machine

variable {g : Registry}

/-! ## Responses and counts -/

/-- `incrInFlight` was executed for the request, and `decrInFlight` was not. -/
def Place.counted : Place → Bool
  | .handOver _ | .takeBack | .queued | .taken | .called => true
  | _ => false

def Dispatch.counted (r : Dispatch) : Bool := r.place.counted

/-- The request has reached a service or the worker queue, and its closure has not run. -/
def Place.reached : Place → Bool
  | .queued | .taken | .called => true
  | _ => false

/-- `dispatch` has counted the request and hands it over or takes it back. -/
def Place.handing : Place → Bool
  | .handOver _ | .takeBack => true
  | _ => false

theorem Place.counted_eq (p : Place) : p.counted = (p.reached || p.handing) := by
  cases p <;> rfl

/-- The `send`s of request `d`. -/
def sends (d : Nat) (es : List DispatchEvent) : Nat :=
  es.countP fun
    | .sent d' _ _ => d' = d
    | _ => false

def incrs (d : Nat) (es : List DispatchEvent) : Nat :=
  es.countP fun
    | .incrInFlight d' _ => d' = d
    | _ => false

def decrs (d : Nat) (es : List DispatchEvent) : Nat :=
  es.countP fun
    | .decrInFlight d' _ => d' = d
    | _ => false

theorem sends_append (d : Nat) (es fs : List DispatchEvent) :
    sends d (es ++ fs) = sends d es + sends d fs := List.countP_append

theorem incrs_append (d : Nat) (es fs : List DispatchEvent) :
    incrs d (es ++ fs) = incrs d es + incrs d fs := List.countP_append

theorem decrs_append (d : Nat) (es fs : List DispatchEvent) :
    decrs d (es ++ fs) = decrs d es + decrs d fs := List.countP_append

/-- The message carries the id and the method name of the request. -/
def Labelled (request message : TinyPBProtocol) : Prop :=
  message.msgId = request.msgId ∧ message.methodName = request.methodName

theorem labelled_setTinyPBError {request msg : TinyPBProtocol} (h : Labelled request msg)
    (errCode : Int32) (errInfo : Bytes) : Labelled request (setTinyPBError msg errCode errInfo) := h

theorem labelled_serialized {request response : TinyPBProtocol} (h : Labelled request response)
    (ok : Bool) (data : Bytes) : Labelled request (serialized response ok data) := by
  unfold serialized
  split <;> exact h

/-! ## What a step does -/

/-- One request moves on. -/
inductive Moves (d : Nat) (r r' : Dispatch) : Int → List DispatchEvent → Prop where
  | quiet (hcounted : r'.counted = r.counted) (hr : r.place ≠ .answered)
      (hr' : r'.place ≠ .answered) : Moves d r r' 0 []
  | enter (hr : r.counted = false) (hr' : r'.counted = true) (hopen : r.place ≠ .answered) :
      Moves d r r' 1 [.incrInFlight d r.conn]
  | leave (hr : r.counted = true) (hr' : r'.counted = false) (hopen : r'.place ≠ .answered) :
      Moves d r r' (-1) [.decrInFlight d r.conn]
  | answer {message : TinyPBProtocol} (hr : r.counted = false) (hopen : r.place ≠ .answered)
      (hr' : r'.place = .answered)
      (hlabelled : Labelled r.request r.response → Labelled r.request message) :
      Moves d r r' 0 [.sent d r.conn message]

/-- What moves on keeps its connection, its request and the labels of its response. -/
structure SameRequest (r r' : Dispatch) : Prop where
  conn : r'.conn = r.conn
  request : r'.request = r.request
  labelled : Labelled r.request r.response → Labelled r'.request r'.response

inductive Stepped (s s' : RpcDispatcher) (es : List DispatchEvent) : Prop where
  | came {r : Dispatch} (hdispatches : s'.dispatches = s.dispatches ++ [r])
      (hplace : r.place = .stopping) (hlabelled : Labelled r.request r.response)
      (hinFlight : s'.inFlight = s.inFlight) (hes : es = [])
  | moved {d : Nat} {r r' : Dispatch} {n : Int} (hd : s.dispatches[d]? = some r)
      (hdispatches : s'.dispatches = s.dispatches.set d r') (hsame : SameRequest r r')
      (hinFlight : s'.inFlight = Function.update s.inFlight r.conn (s.inFlight r.conn + n))
      (hmoves : Moves d r r' n es)
  | beside (hdispatches : s'.dispatches = s.dispatches) (hinFlight : s'.inFlight = s.inFlight)
      (hes : es = [])

theorem stepped_quiet {s s' : RpcDispatcher} {d : Nat} {r r' : Dispatch}
    (hd : s.dispatches[d]? = some r) (hdispatches : s'.dispatches = s.dispatches.set d r')
    (hsame : SameRequest r r') (hinFlight : s'.inFlight = s.inFlight)
    (hcounted : r'.counted = r.counted) (hr : r.place ≠ .answered)
    (hr' : r'.place ≠ .answered) : Stepped s s' [] := by
  refine .moved hd hdispatches hsame ?_ (.quiet hcounted hr hr')
  rw [hinFlight, Int.add_zero, Function.update_eq_self]

/-- The quiet ways of `dispatch` from place to place. -/
inductive Place.Next : Place → Place → Prop where
  | refused : Next .stopping .sendError
  | admitted : Next .stopping .lookup
  | unknown : Next .lookup .sendError
  | found (fullName : Bytes) : Next .lookup (.count fullName)
  | called (fullName : Bytes) : Next (.handOver fullName) .called
  | turnedAway (fullName : Bytes) : Next (.handOver fullName) .takeBack
  | failed : Next .rejected .sendError

/-- What one operation of `dispatch` does to its request. -/
inductive WentOn (s : RpcDispatcher) (d : Nat) (r : Dispatch) :
    RpcDispatcher → List DispatchEvent → Prop where
  | error (errCode : Int32) (errInfo : Bytes) (hnext : r.place.Next .sendError) :
      WentOn s d r (s.setError d r errCode errInfo) []
  | next {place : Place} (hnext : r.place.Next place) :
      WentOn s d r (s.put d { r with place }) []
  | count {fullName : Bytes} (hplace : r.place = .count fullName) :
      WentOn s d r ((s.addInFlight r.conn 1).put d { r with place := .handOver fullName })
        [.incrInFlight d r.conn]
  | queue {fullName : Bytes} {workerPool : ThreadPool Nat} (hplace : r.place = .handOver fullName)
      (hexecute : s.workerPool.tryExecute d = (true, workerPool)) :
      WentOn s d r ({ s with workerPool }.put d { r with place := .queued }) []
  | takeBack (hplace : r.place = .takeBack) :
      WentOn s d r ((s.addInFlight r.conn (-1)).put d { r with place := .rejected })
        [.decrInFlight d r.conn]
  | send (hplace : r.place = .sendError) :
      WentOn s d r (s.put d { r with place := .answered }) [.sent d r.conn r.response]

theorem goOn_cases {s s' : RpcDispatcher} {d : Nat} {r : Dispatch} {es : List DispatchEvent}
    (hs : s.goOn g d r = some (s', es)) : WentOn s d r s' es := by
  unfold RpcDispatcher.goOn at hs
  cases hplace : r.place with
  | stopping =>
    simp only [hplace] at hs
    split at hs <;> obtain ⟨rfl, rfl⟩ := Prod.mk.inj (Option.some.inj hs)
    · exact .error _ _ (hplace ▸ .refused)
    · exact .next (hplace ▸ .admitted)
  | lookup =>
    simp only [hplace] at hs
    split at hs <;> obtain ⟨rfl, rfl⟩ := Prod.mk.inj (Option.some.inj hs)
    · exact .error _ _ (hplace ▸ .unknown)
    · exact .next (hplace ▸ .found _)
  | count fullName =>
    simp only [hplace] at hs
    obtain ⟨rfl, rfl⟩ := Prod.mk.inj (Option.some.inj hs)
    exact .count hplace
  | handOver fullName =>
    simp only [hplace] at hs
    split at hs
    · obtain ⟨rfl, rfl⟩ := Prod.mk.inj (Option.some.inj hs)
      exact .next (hplace ▸ .called fullName)
    split at hs <;> rename_i hexecute <;>
      obtain ⟨rfl, rfl⟩ := Prod.mk.inj (Option.some.inj hs)
    · exact .queue hplace hexecute
    · exact .next (hplace ▸ .turnedAway fullName)
  | takeBack =>
    simp only [hplace] at hs
    obtain ⟨rfl, rfl⟩ := Prod.mk.inj (Option.some.inj hs)
    exact .takeBack hplace
  | rejected =>
    simp only [hplace] at hs
    split at hs <;> obtain ⟨rfl, rfl⟩ := Prod.mk.inj (Option.some.inj hs)
    · exact .error _ _ (hplace ▸ .failed)
    · exact .error _ _ (hplace ▸ .failed)
  | sendError =>
    simp only [hplace] at hs
    obtain ⟨rfl, rfl⟩ := Prod.mk.inj (Option.some.inj hs)
    exact .send hplace
  | queued | taken | called | replying | answered => exact absurd hs (by simp [hplace])

/-- A quiet way is before the queue, and neither counts the request nor answers it. -/
theorem Place.Next.quiet {place place' : Place} (h : place.Next place') :
    place'.counted = place.counted ∧ place ≠ .answered ∧ place' ≠ .answered := by
  cases h <;> simp [Place.counted]

theorem goOn_moves {s s' : RpcDispatcher} {d : Nat} {r : Dispatch} {es : List DispatchEvent}
    (hd : s.dispatches[d]? = some r) (hs : s.goOn g d r = some (s', es)) : Stepped s s' es := by
  cases goOn_cases hs with
  | error errCode errInfo hnext =>
    obtain ⟨hcounted, hr, -⟩ := hnext.quiet
    exact stepped_quiet hd rfl ⟨rfl, rfl, fun h => labelled_setTinyPBError h errCode errInfo⟩ rfl
      hcounted hr (by simp)
  | next hnext =>
    obtain ⟨hcounted, hr, hr'⟩ := hnext.quiet
    exact stepped_quiet hd rfl ⟨rfl, rfl, id⟩ rfl hcounted hr hr'
  | count hplace =>
    exact .moved hd rfl ⟨rfl, rfl, id⟩ rfl
      (.enter (by simp [Dispatch.counted, hplace, Place.counted]) rfl (by simp [hplace]))
  | queue hplace hexecute =>
    exact stepped_quiet hd rfl ⟨rfl, rfl, id⟩ rfl
      (by simp [Dispatch.counted, hplace, Place.counted]) (by simp [hplace]) (by simp)
  | takeBack hplace =>
    exact .moved hd rfl ⟨rfl, rfl, id⟩ rfl
      (.leave (by simp [Dispatch.counted, hplace, Place.counted]) rfl (by simp))
  | send hplace =>
    refine .moved hd rfl ⟨rfl, rfl, id⟩ ?_
      (.answer (by simp [Dispatch.counted, hplace, Place.counted]) (by simp [hplace]) rfl id)
    rw [Int.add_zero, Function.update_eq_self]
    rfl

theorem runningOn_eq_some {s : RpcDispatcher} {i d : Nat} {r : Dispatch}
    (h : s.runningOn i = some (d, r)) :
    s.workerPool.workers[i]? = some (.running d) ∧ s.dispatches[d]? = some r := by
  unfold RpcDispatcher.runningOn at h
  split at h
  · rename_i d' hi
    obtain ⟨r', hd, heq⟩ := Option.map_eq_some_iff.mp h
    obtain ⟨rfl, rfl⟩ := Prod.mk.inj heq
    exact ⟨hi, hd⟩
  · exact absurd h (by simp)

/-- What the queue of the pool holds are requests at their place in it. -/
def QueuedPlaces (s : RpcDispatcher) : Prop :=
  ∀ d r, d ∈ s.workerPool.tasks → s.dispatches[d]? = some r → r.place = .queued

theorem take_moves {s s' : RpcDispatcher} {i : Nat} (hqueue : QueuedPlaces s)
    (hs : s.take i = some s') : Stepped s s' [] := by
  unfold RpcDispatcher.take at hs
  split at hs
  · rename_i d workerPool htake
    obtain ⟨r, hd, rfl⟩ := Option.map_eq_some_iff.mp hs
    obtain ⟨-, tasks, htasks, -⟩ := ThreadPool.take_eq_some htake
    have hplace : r.place = .queued := hqueue d r (htasks ▸ List.mem_cons_self) hd
    exact stepped_quiet hd rfl ⟨rfl, rfl, id⟩ rfl
      (by simp [Dispatch.counted, hplace, Place.counted]) (by simp [hplace]) (by simp)
  · obtain rfl := Option.some.inj hs
    exact .beside rfl rfl rfl
  · exact absurd hs (by simp)

/-- What a step of the dispatcher does to the requests. -/
theorem step_moves {s s' : RpcDispatcher} {l : DispatchLabel} {es : List DispatchEvent}
    (hqueue : QueuedPlaces s) (hs : s.step g l = some (s', es)) : Stepped s s' es := by
  cases l with
  | dispatch conn request response =>
    obtain ⟨rfl, rfl⟩ := Prod.mk.inj (Option.some.inj hs)
    cases request with
    | other => exact .beside rfl rfl rfl
    | tinyPB request =>
      cases response with
      | other => exact .beside rfl rfl rfl
      | tinyPB response => exact .came rfl rfl ⟨rfl, rfl⟩ rfl rfl
  | goOn d =>
    obtain ⟨r, hd, hr⟩ := Option.bind_eq_some_iff.mp hs
    exact goOn_moves hd hr
  | take i =>
    obtain ⟨s₁, htake, heq⟩ := Option.map_eq_some_iff.mp hs
    obtain ⟨rfl, rfl⟩ := Prod.mk.inj heq
    exact take_moves hqueue htake
  | invoke i =>
    obtain ⟨⟨d, r⟩, hrunning, hr⟩ := Option.bind_eq_some_iff.mp hs
    obtain ⟨-, hd⟩ := runningOn_eq_some hrunning
    obtain ⟨hplace, heq⟩ := Option.ite_none_right_eq_some.mp hr
    obtain ⟨rfl, rfl⟩ := Prod.mk.inj (Option.some.inj heq)
    exact stepped_quiet hd rfl ⟨rfl, rfl, id⟩ rfl
      (by simp [Dispatch.counted, hplace, Place.counted]) (by simp [hplace]) (by simp)
  | finish i =>
    obtain ⟨⟨d, r⟩, -, hr⟩ := Option.bind_eq_some_iff.mp hs
    obtain ⟨-, heq⟩ := Option.ite_none_left_eq_some.mp hr
    obtain ⟨workerPool, -, heq⟩ := Option.map_eq_some_iff.mp heq
    obtain ⟨rfl, rfl⟩ := Prod.mk.inj heq
    exact .beside rfl rfl rfl
  | run d =>
    obtain ⟨r, hd, hr⟩ := Option.bind_eq_some_iff.mp hs
    obtain ⟨hplace, heq⟩ := Option.ite_none_right_eq_some.mp hr
    obtain ⟨rfl, rfl⟩ := Prod.mk.inj (Option.some.inj heq)
    exact .moved hd rfl ⟨rfl, rfl, id⟩ rfl
      (.leave (by simp [Dispatch.counted, hplace, Place.counted]) rfl (by simp))
  | reply d ok data =>
    obtain ⟨r, hd, hr⟩ := Option.bind_eq_some_iff.mp hs
    obtain ⟨hplace, heq⟩ := Option.ite_none_right_eq_some.mp hr
    obtain ⟨rfl, rfl⟩ := Prod.mk.inj (Option.some.inj heq)
    refine .moved hd rfl ⟨rfl, rfl, id⟩ ?_
      (.answer (by simp [Dispatch.counted, hplace, Place.counted]) (by simp [hplace]) rfl
        fun h => labelled_serialized h ok data)
    rw [Int.add_zero, Function.update_eq_self]
    rfl
  | stop =>
    obtain ⟨rfl, rfl⟩ := Prod.mk.inj (Option.some.inj hs)
    exact .beside rfl rfl rfl
  | stopAndDrain =>
    simp only [RpcDispatcher.step] at hs
    split at hs
    · obtain ⟨rfl, rfl⟩ := Prod.mk.inj (Option.some.inj hs)
      exact .beside rfl rfl rfl
    · exact absurd hs (by simp)

/-! ## The accounts of the requests -/

/-- The counters and the responses agree with the places of the requests. -/
structure Accounted (s : RpcDispatcher) (tr : List DispatchEvent) : Prop where
  inFlight : Tally.Exact Dispatch.conn Dispatch.counted s.dispatches s.inFlight
  sent : ∀ d r, s.dispatches[d]? = some r →
    sends d tr = if r.place = .answered then 1 else 0
  counts : ∀ d r, s.dispatches[d]? = some r →
    incrs d tr = decrs d tr + if r.counted then 1 else 0
  fresh : ∀ d, s.dispatches.length ≤ d → sends d tr = 0 ∧ incrs d tr = 0 ∧ decrs d tr = 0
  labelled : ∀ r ∈ s.dispatches, Labelled r.request r.response
  answers : ∀ d c message, .sent d c message ∈ tr → ∃ r, s.dispatches[d]? = some r ∧
    c = r.conn ∧ Labelled r.request message

theorem accounted_new (workerThreads maxPendingTasks : Nat) :
    Accounted (.new workerThreads maxPendingTasks) [] where
  inFlight := Tally.exact_nil
  sent _ _ h := absurd h (by simp [RpcDispatcher.new])
  counts _ _ h := absurd h (by simp [RpcDispatcher.new])
  fresh _ _ := ⟨rfl, rfl, rfl⟩
  labelled _ h := absurd h (by simp [RpcDispatcher.new])
  answers _ _ _ h := absurd h (by simp)

/-- What the events of a move are for its own request, and for any other. -/
theorem Moves.events {d : Nat} {r r' : Dispatch} {n : Int} {es : List DispatchEvent}
    (h : Moves d r r' n es) :
    (sends d es + if r.place = .answered then 1 else 0) =
        (if r'.place = .answered then 1 else 0) ∧
      (incrs d es + if r.counted then 1 else 0) = (decrs d es + if r'.counted then 1 else 0) ∧
      ∀ d' ≠ d, sends d' es = 0 ∧ incrs d' es = 0 ∧ decrs d' es = 0 := by
  cases h with
  | quiet hcounted hr hr' => simp [sends, incrs, decrs, hcounted, hr, hr']
  | enter hr hr' hopen =>
    have hopen' : r'.place ≠ .answered := by
      intro heq
      simp [Dispatch.counted, heq, Place.counted] at hr'
    refine ⟨by simp [sends, hopen, hopen'], by simp [incrs, decrs, hr, hr'], fun d' hne => ?_⟩
    simp [sends, incrs, decrs, Ne.symm hne]
  | leave hr hr' hopen =>
    have hopen' : r.place ≠ .answered := by
      intro heq
      simp [Dispatch.counted, heq, Place.counted] at hr
    refine ⟨by simp [sends, hopen, hopen'], by simp [incrs, decrs, hr, hr'], fun d' hne => ?_⟩
    simp [sends, incrs, decrs, Ne.symm hne]
  | answer hr hopen hr' hlabelled =>
    have hcounted : r'.counted = false := by simp [Dispatch.counted, hr', Place.counted]
    refine ⟨by simp [sends, hopen, hr'], by simp [incrs, decrs, hr, hcounted],
      fun d' hne => ?_⟩
    simp [sends, incrs, decrs, Ne.symm hne]

/-- One request moves on, and the others stay. -/
theorem Accounted.moved {s s' : RpcDispatcher} {tr es : List DispatchEvent}
    (h : Accounted s tr) {d : Nat} {r r' : Dispatch} {n : Int} (hd : s.dispatches[d]? = some r)
    (hdispatches : s'.dispatches = s.dispatches.set d r') (hsame : SameRequest r r')
    (hinFlight : s'.inFlight = Function.update s.inFlight r.conn (s.inFlight r.conn + n))
    (hmoves : Moves d r r' n es) : Accounted s' (tr ++ es) := by
  obtain ⟨hlt, hget⟩ := List.getElem?_eq_some_iff.mp hd
  obtain ⟨hsends, hcounts, hothers⟩ := hmoves.events
  have hself : s'.dispatches[d]? = some r' := by
    rw [hdispatches, List.getElem?_set_self hlt]
  have hother : ∀ d' ≠ d, s'.dispatches[d']? = s.dispatches[d']? := fun d' hne => by
    rw [hdispatches, List.getElem?_set_ne hne.symm]
  refine ⟨?_, fun d' r₁ hd' => ?_, fun d' r₁ hd' => ?_, fun d' hle => ?_, fun r₁ hr₁ => ?_,
    fun d' c message hmem => ?_⟩
  · rw [hdispatches, hinFlight]
    cases hmoves with
    | quiet hcounted hr hr' =>
      rw [Int.add_zero, Function.update_eq_self]
      exact h.inFlight.set hd hsame.conn hcounted
    | enter hr hr' hopen => exact h.inFlight.enter hd hsame.conn hr hr'
    | leave hr hr' hopen => exact h.inFlight.leave hd hsame.conn hr hr'
    | answer hr hopen hr' hlabelled =>
      rw [Int.add_zero, Function.update_eq_self]
      refine h.inFlight.set hd hsame.conn ?_
      rw [hr]
      simp [Dispatch.counted, hr', Place.counted]
  · rw [sends_append]
    by_cases hne : d' = d
    · subst hne
      obtain rfl := Option.some.inj (hself.symm.trans hd')
      rw [h.sent d' r hd]
      omega
    · rw [h.sent d' r₁ (hother d' hne ▸ hd'), (hothers d' hne).1, Nat.add_zero]
  · rw [incrs_append, decrs_append]
    by_cases hne : d' = d
    · subst hne
      obtain rfl := Option.some.inj (hself.symm.trans hd')
      have hbefore := h.counts d' r hd
      omega
    · rw [h.counts d' r₁ (hother d' hne ▸ hd'), (hothers d' hne).2.1, (hothers d' hne).2.2]
      omega
  · rw [hdispatches, List.length_set] at hle
    have hne : d' ≠ d := by omega
    obtain ⟨h₁, h₂, h₃⟩ := h.fresh d' hle
    obtain ⟨h₁', h₂', h₃'⟩ := hothers d' hne
    rw [sends_append, incrs_append, decrs_append]
    omega
  · rw [hdispatches] at hr₁
    rcases List.mem_or_eq_of_mem_set hr₁ with hr₁ | rfl
    · exact h.labelled r₁ hr₁
    · exact hsame.labelled (h.labelled r (hget ▸ List.getElem_mem hlt))
  · rcases List.mem_append.mp hmem with hmem | hmem
    · obtain ⟨r₁, hd', hc, hm⟩ := h.answers d' c message hmem
      by_cases hne : d' = d
      · subst hne
        obtain rfl := Option.some.inj (hd.symm.trans hd')
        exact ⟨r', hself, hc.trans hsame.conn.symm, hsame.request ▸ hm⟩
      · exact ⟨r₁, hother d' hne ▸ hd', hc, hm⟩
    · cases hmoves with
      | answer hr hopen hr' hlabelled =>
        obtain ⟨rfl, rfl, rfl⟩ : d' = d ∧ c = r.conn ∧ message = _ := by simpa using hmem
        refine ⟨r', hself, hsame.conn.symm, ?_⟩
        rw [hsame.request]
        exact hlabelled (h.labelled r (hget ▸ List.getElem_mem hlt))
      | _ => simp at hmem

/-- One step keeps the accounts. -/
theorem step_accounted {s s' : RpcDispatcher} {tr es : List DispatchEvent}
    (h : Accounted s tr) (hs : Stepped s s' es) : Accounted s' (tr ++ es) := by
  cases hs with
  | moved hd hdispatches hsame hinFlight hmoves =>
    exact h.moved hd hdispatches hsame hinFlight hmoves
  | beside hdispatches hinFlight hes =>
    subst hes
    rw [List.append_nil]
    refine ⟨?_, ?_, ?_, ?_, ?_, ?_⟩
    · rw [hdispatches, hinFlight]
      exact h.inFlight
    all_goals rw [hdispatches]
    · exact h.sent
    · exact h.counts
    · exact h.fresh
    · exact h.labelled
    · exact h.answers
  | came hdispatches hplace hlabelled hinFlight hes =>
    rename_i r
    subst hes
    rw [List.append_nil]
    have hcases : ∀ d r₁, s'.dispatches[d]? = some r₁ →
        s.dispatches[d]? = some r₁ ∨ (s.dispatches.length ≤ d ∧ r₁ = r) := by
      intro d r₁ hd
      rw [hdispatches, List.getElem?_append] at hd
      split at hd
      · exact Or.inl hd
      · rename_i hge
        have hmem := List.mem_of_getElem? hd
        exact Or.inr ⟨Nat.le_of_not_lt hge, List.mem_singleton.mp hmem⟩
    refine ⟨?_, fun d r₁ hd => ?_, fun d r₁ hd => ?_, fun d hle => ?_, fun r₁ hr₁ => ?_,
      fun d c message hmem => ?_⟩
    · rw [hdispatches, hinFlight]
      exact h.inFlight.append (by simp [Dispatch.counted, hplace, Place.counted])
    · rcases hcases d r₁ hd with hd | ⟨hle, rfl⟩
      · exact h.sent d r₁ hd
      · rw [(h.fresh d hle).1, if_neg (by simp [hplace])]
    · rcases hcases d r₁ hd with hd | ⟨hle, rfl⟩
      · exact h.counts d r₁ hd
      · rw [(h.fresh d hle).2.1, (h.fresh d hle).2.2]
        simp [Dispatch.counted, hplace, Place.counted]
    · rw [hdispatches, List.length_append] at hle
      exact h.fresh d (by omega)
    · rw [hdispatches] at hr₁
      rcases List.mem_append.mp hr₁ with hr₁ | hr₁
      · exact h.labelled r₁ hr₁
      · rw [List.mem_singleton.mp hr₁]
        exact hlabelled
    · obtain ⟨r₁, hd, hc, hm⟩ := h.answers d c message hmem
      refine ⟨r₁, ?_, hc, hm⟩
      rw [hdispatches, List.getElem?_append_left (List.getElem?_eq_some_iff.mp hd).1]
      exact hd

/-! ## The requests and the pool -/

/-- A worker has taken the request out of the queue, or it never was there. -/
def Place.behindQueue : Place → Bool
  | .taken | .called | .replying | .answered => true
  | _ => false

/-- The queue and the workers of the pool have the requests that say so. -/
structure Handed (s : RpcDispatcher) : Prop where
  staffed : s.workerPool.Staffed
  nodup : s.workerPool.tasks.Nodup
  queue : ∀ d ∈ s.workerPool.tasks, ∃ r, s.dispatches[d]? = some r ∧ r.place = .queued
  queued : ∀ (d : Nat) r, s.dispatches[d]? = some r → r.place = .queued →
    d ∈ s.workerPool.tasks
  running : ∀ (i d : Nat), s.workerPool.workers[i]? = some (.running d) →
    ∃ r, s.dispatches[d]? = some r ∧ r.place.behindQueue = true
  taken : ∀ (d : Nat) r, s.dispatches[d]? = some r → r.place = .taken →
    ∃ i : Nat, s.workerPool.workers[i]? = some (.running d)

theorem handed_new (workerThreads maxPendingTasks : Nat) :
    Handed (.new workerThreads maxPendingTasks) where
  staffed := ThreadPool.staffed_new workerThreads maxPendingTasks
  nodup := List.nodup_nil
  queue _ h := absurd h (by simp [RpcDispatcher.new, ThreadPool.new])
  queued _ _ h := absurd h (by simp [RpcDispatcher.new])
  running i d h := by
    have hmem := List.mem_of_getElem? h
    exact absurd (List.eq_of_mem_replicate hmem) (by simp)
  taken _ _ h := absurd h (by simp [RpcDispatcher.new])

section Handed

variable {s s' : RpcDispatcher} (h : Handed s)

include h

theorem Handed.queuedPlaces : QueuedPlaces s := by
  intro d r hmem hd
  obtain ⟨r', hd', hplace⟩ := h.queue d hmem
  obtain rfl := Option.some.inj (hd.symm.trans hd')
  exact hplace

/-- A request moves on beside the queue. -/
theorem Handed.put {d : Nat} {r r' : Dispatch} (hd : s.dispatches[d]? = some r)
    (hdispatches : s'.dispatches = s.dispatches.set d r') (hpool : s'.workerPool = s.workerPool)
    (hr : r.place ≠ .queued) (hqueued : r'.place ≠ .queued) (htaken : r'.place ≠ .taken)
    (hbehind : r.place.behindQueue = true → r'.place.behindQueue = true) : Handed s' := by
  have hlt := (List.getElem?_eq_some_iff.mp hd).1
  have hself : s'.dispatches[d]? = some r' := by
    rw [hdispatches, List.getElem?_set_self hlt]
  have hother : ∀ d' ≠ d, s'.dispatches[d']? = s.dispatches[d']? := fun d' hne => by
    rw [hdispatches, List.getElem?_set_ne hne.symm]
  refine ⟨hpool ▸ h.staffed, hpool ▸ h.nodup, fun d' hmem => ?_, fun d' r₁ hd' hq => ?_,
    fun i d' hi => ?_, fun d' r₁ hd' ht => ?_⟩
  · rw [hpool] at hmem
    obtain ⟨r₁, hd', hq⟩ := h.queue d' hmem
    have hne : d' ≠ d := by
      rintro rfl
      obtain rfl := Option.some.inj (hd.symm.trans hd')
      exact hr hq
    exact ⟨r₁, (hother d' hne).trans hd', hq⟩
  · have hne : d' ≠ d := by
      rintro rfl
      obtain rfl := Option.some.inj (hself.symm.trans hd')
      exact hqueued hq
    rw [hpool]
    exact h.queued d' r₁ (hother d' hne ▸ hd') hq
  · rw [hpool] at hi
    obtain ⟨r₁, hd', hb⟩ := h.running i d' hi
    by_cases hne : d' = d
    · subst hne
      obtain rfl := Option.some.inj (hd.symm.trans hd')
      exact ⟨r', hself, hbehind hb⟩
    · exact ⟨r₁, (hother d' hne).trans hd', hb⟩
  · have hne : d' ≠ d := by
      rintro rfl
      obtain rfl := Option.some.inj (hself.symm.trans hd')
      exact htaken ht
    rw [hpool]
    exact h.taken d' r₁ (hother d' hne ▸ hd') ht

/-- Nothing moves but the flags. -/
theorem Handed.same (hdispatches : s'.dispatches = s.dispatches)
    (htasks : s'.workerPool.tasks = s.workerPool.tasks)
    (hworkers : s'.workerPool.workers = s.workerPool.workers)
    (hstaffed : s'.workerPool.Staffed) : Handed s' := by
  refine ⟨hstaffed, ?_, ?_, ?_, ?_, ?_⟩ <;>
    simp only [hdispatches, htasks, hworkers]
  · exact h.nodup
  · exact h.queue
  · exact h.queued
  · exact h.running
  · exact h.taken

theorem Handed.came {r : Dispatch} (hdispatches : s'.dispatches = s.dispatches ++ [r])
    (hplace : r.place = .stopping) (hpool : s'.workerPool = s.workerPool) : Handed s' := by
  have hold : ∀ (d : Nat) r₁, s.dispatches[d]? = some r₁ → s'.dispatches[d]? = some r₁ := by
    intro d r₁ hd
    rw [hdispatches, List.getElem?_append_left (List.getElem?_eq_some_iff.mp hd).1]
    exact hd
  have hcases : ∀ (d : Nat) r₁, s'.dispatches[d]? = some r₁ →
      s.dispatches[d]? = some r₁ ∨ r₁.place = .stopping := by
    intro d r₁ hd
    rw [hdispatches, List.getElem?_append] at hd
    split at hd
    · exact Or.inl hd
    · have hmem := List.mem_of_getElem? hd
      exact Or.inr (List.mem_singleton.mp hmem ▸ hplace)
  refine ⟨hpool ▸ h.staffed, hpool ▸ h.nodup, fun d hmem => ?_, fun d r₁ hd hq => ?_,
    fun i d hi => ?_, fun d r₁ hd ht => ?_⟩
  · obtain ⟨r₁, hd, hq⟩ := h.queue d (hpool ▸ hmem)
    exact ⟨r₁, hold d r₁ hd, hq⟩
  · rcases hcases d r₁ hd with hd | hstop
    · exact hpool ▸ h.queued d r₁ hd hq
    · exact absurd (hstop.symm.trans hq) (by simp)
  · obtain ⟨r₁, hd, hb⟩ := h.running i d (hpool ▸ hi)
    exact ⟨r₁, hold d r₁ hd, hb⟩
  · rcases hcases d r₁ hd with hd | hstop
    · exact hpool ▸ h.taken d r₁ hd ht
    · exact absurd (hstop.symm.trans ht) (by simp)

/-- The pool takes a request into its queue. -/
theorem Handed.enqueue {d : Nat} {r : Dispatch} {workerPool : ThreadPool Nat}
    (hd : s.dispatches[d]? = some r) (hr : r.place ≠ .queued)
    (hbehind : r.place.behindQueue = false)
    (hexecute : s.workerPool.tryExecute d = (true, workerPool)) :
    Handed ({ s with workerPool }.put d { r with place := .queued }) := by
  have hlt := (List.getElem?_eq_some_iff.mp hd).1
  obtain ⟨hpool, -, -⟩ := ThreadPool.tryExecute_eq_true hexecute
  have hnot : d ∉ s.workerPool.tasks := fun hmem => hr (h.queuedPlaces d r hmem hd)
  have hother : ∀ d' ≠ d, (s.dispatches.set d { r with place := .queued })[d']? =
      s.dispatches[d']? := fun d' hne => List.getElem?_set_ne hne.symm
  have hself : (s.dispatches.set d { r with place := .queued })[d]? =
      some { r with place := .queued } := List.getElem?_set_self hlt
  refine ⟨h.staffed.tryExecute hexecute, ?_, fun d' hmem => ?_, fun d' r₁ hd' hq => ?_,
    fun i d' hi => ?_, fun d' r₁ hd' ht => ?_⟩
  · subst hpool
    exact List.nodup_append.mpr ⟨h.nodup, by simp, fun x hx y hy hxy =>
      hnot (List.mem_singleton.mp hy ▸ hxy ▸ hx)⟩
  · subst hpool
    rcases List.mem_append.mp hmem with hmem | hmem
    · obtain ⟨r₁, hd', hq⟩ := h.queue d' hmem
      have hne : d' ≠ d := fun heq => hnot (heq ▸ hmem)
      exact ⟨r₁, (hother d' hne).trans hd', hq⟩
    · rw [List.mem_singleton.mp hmem]
      exact ⟨_, hself, rfl⟩
  · subst hpool
    by_cases hne : d' = d
    · exact List.mem_append_right _ (List.mem_singleton.mpr hne)
    · exact List.mem_append_left _ (h.queued d' r₁ ((hother d' hne).symm.trans hd') hq)
  · subst hpool
    obtain ⟨r₁, hd', hb⟩ := h.running i d' hi
    have hne : d' ≠ d := by
      rintro rfl
      obtain rfl := Option.some.inj (hd.symm.trans hd')
      exact absurd (hbehind.symm.trans hb) (by simp)
    exact ⟨r₁, (hother d' hne).trans hd', hb⟩
  · subst hpool
    have hne : d' ≠ d := by
      rintro rfl
      obtain rfl := Option.some.inj (hself.symm.trans hd')
      exact absurd ht (by simp)
    exact h.taken d' r₁ ((hother d' hne).symm.trans hd') ht

/-- A worker takes the first request of the queue. -/
theorem Handed.take {i d : Nat} {r : Dispatch} {workerPool : ThreadPool Nat}
    (htake : s.workerPool.take i = some (some d, workerPool)) (hd : s.dispatches[d]? = some r) :
    Handed ({ s with workerPool }.put d { r with place := .taken }) := by
  have hlt := (List.getElem?_eq_some_iff.mp hd).1
  obtain ⟨hi, tasks, htasks, hpool⟩ := ThreadPool.take_eq_some htake
  have hilt : i < s.workerPool.workers.length := (List.getElem?_eq_some_iff.mp hi).1
  have hnodup := h.nodup
  rw [htasks, List.nodup_cons] at hnodup
  have hother : ∀ d' ≠ d, (s.dispatches.set d { r with place := .taken })[d']? =
      s.dispatches[d']? := fun d' hne => List.getElem?_set_ne hne.symm
  have hself : (s.dispatches.set d { r with place := .taken })[d]? =
      some { r with place := .taken } := List.getElem?_set_self hlt
  have hstaffed := h.staffed.take htake
  refine ⟨hstaffed, ?_, fun d' hmem => ?_, fun d' r₁ hd' hq => ?_, fun j d' hj => ?_,
    fun d' r₁ hd' ht => ?_⟩
  · subst hpool
    exact hnodup.2
  · subst hpool
    have hne : d' ≠ d := by
      rintro rfl
      exact hnodup.1 hmem
    obtain ⟨r₁, hd', hq⟩ := h.queue d' (htasks ▸ List.mem_cons_of_mem _ hmem)
    exact ⟨r₁, (hother d' hne).trans hd', hq⟩
  · subst hpool
    have hne : d' ≠ d := by
      rintro rfl
      obtain rfl := Option.some.inj (hself.symm.trans hd')
      exact absurd hq (by simp)
    have hmem := h.queued d' r₁ ((hother d' hne).symm.trans hd') hq
    rw [htasks] at hmem
    exact (List.mem_cons.mp hmem).resolve_left hne
  · subst hpool
    by_cases hij : i = j
    · subst hij
      have hrun : Worker.running d = .running d' :=
        Option.some.inj ((List.getElem?_set_self hilt).symm.trans hj)
      obtain rfl := Worker.running.inj hrun
      exact ⟨_, hself, rfl⟩
    · have hj' : s.workerPool.workers[j]? = some (.running d') :=
        (List.getElem?_set_ne hij).symm.trans hj
      obtain ⟨r₁, hd', hb⟩ := h.running j d' hj'
      by_cases hne : d' = d
      · subst hne
        exact ⟨_, hself, rfl⟩
      · exact ⟨r₁, (hother d' hne).trans hd', hb⟩
  · subst hpool
    by_cases hne : d' = d
    · subst hne
      exact ⟨i, List.getElem?_set_self hilt⟩
    · obtain ⟨j, hj⟩ := h.taken d' r₁ ((hother d' hne).symm.trans hd') ht
      have hij : i ≠ j := by
        rintro rfl
        exact absurd (hi.symm.trans hj) (by simp)
      exact ⟨j, (List.getElem?_set_ne hij).trans hj⟩

/-- A worker that runs no taken request goes to another place of its loop. -/
theorem Handed.setWorker {i : Nat} {w : Worker Nat} {workerPool : ThreadPool Nat}
    (hpool : workerPool = { s.workerPool with workers := s.workerPool.workers.set i w })
    (hstaffed : workerPool.Staffed) (hw : ∀ d, w ≠ .running d)
    (hidle : ∀ (d : Nat) r, s.workerPool.workers[i]? = some (.running d) →
      s.dispatches[d]? = some r → r.place ≠ .taken) : Handed { s with workerPool } := by
  refine ⟨hstaffed, ?_, ?_, ?_, fun j d hj => ?_, fun d r hd ht => ?_⟩
  · subst hpool
    exact h.nodup
  · subst hpool
    exact h.queue
  · subst hpool
    exact h.queued
  · subst hpool
    rcases eq_or_ne i j with rfl | hij
    · have hlt : i < s.workerPool.workers.length := by
        have hlt := (List.getElem?_eq_some_iff.mp hj).1
        simpa using hlt
      exact absurd (Option.some.inj ((List.getElem?_set_self hlt).symm.trans hj)) (hw d)
    · exact h.running j d ((List.getElem?_set_ne hij).symm.trans hj)
  · subst hpool
    obtain ⟨j, hj⟩ := h.taken d r hd ht
    have hij : i ≠ j := by
      rintro rfl
      exact hidle d r hj hd ht
    exact ⟨j, (List.getElem?_set_ne hij).trans hj⟩

end Handed

/-- `dispatch` has a request before the queue, and puts it there by the pool only. -/
theorem Place.Next.beforeQueue {place place' : Place} (h : place.Next place') :
    place ≠ .queued ∧ place.behindQueue = false ∧ place' ≠ .queued ∧ place' ≠ .taken := by
  cases h <;> simp [Place.behindQueue]

/-- One operation of `dispatch`. -/
theorem goOn_handed {s s' : RpcDispatcher} {d : Nat} {r : Dispatch} {es : List DispatchEvent}
    (h : Handed s) (hd : s.dispatches[d]? = some r) (hs : s.goOn g d r = some (s', es)) :
    Handed s' := by
  cases goOn_cases hs with
  | error errCode errInfo hnext =>
    obtain ⟨hr, hbehind, -⟩ := hnext.beforeQueue
    exact h.put hd rfl rfl hr (by simp) (by simp) fun hb => absurd hb (by simp [hbehind])
  | next hnext =>
    obtain ⟨hr, hbehind, hqueued, htaken⟩ := hnext.beforeQueue
    exact h.put hd rfl rfl hr hqueued htaken fun hb => absurd hb (by simp [hbehind])
  | count hplace | takeBack hplace =>
    exact h.put hd rfl rfl (by simp [hplace]) (by simp) (by simp)
      fun hb => absurd hb (by simp [hplace, Place.behindQueue])
  | queue hplace hexecute =>
    exact h.enqueue hd (by simp [hplace]) (by simp [hplace, Place.behindQueue]) hexecute
  | send hplace => exact h.put hd rfl rfl (by simp [hplace]) (by simp) (by simp) fun _ => rfl

theorem step_handed {s s' : RpcDispatcher} {l : DispatchLabel} {es : List DispatchEvent}
    (h : Handed s) (hs : s.step g l = some (s', es)) : Handed s' := by
  cases l with
  | dispatch conn request response =>
    obtain ⟨rfl, rfl⟩ := Prod.mk.inj (Option.some.inj hs)
    cases request with
    | other => exact h
    | tinyPB request =>
      cases response with
      | other => exact h
      | tinyPB response => exact h.came rfl rfl rfl
  | goOn d =>
    obtain ⟨r, hd, hr⟩ := Option.bind_eq_some_iff.mp hs
    exact goOn_handed h hd hr
  | take i =>
    obtain ⟨s₁, htake, heq⟩ := Option.map_eq_some_iff.mp hs
    obtain ⟨rfl, rfl⟩ := Prod.mk.inj heq
    unfold RpcDispatcher.take at htake
    split at htake
    · rename_i d workerPool hpool
      obtain ⟨r, hd, rfl⟩ := Option.map_eq_some_iff.mp htake
      exact h.take hpool hd
    · rename_i workerPool hpool
      obtain rfl := Option.some.inj htake
      obtain ⟨hi, -, -, heq⟩ := ThreadPool.take_eq_none hpool
      exact h.setWorker heq (h.staffed.take hpool) (by simp)
        fun d r hrun => absurd (hi.symm.trans hrun) (by simp)
    · exact absurd htake (by simp)
  | invoke i =>
    obtain ⟨⟨d, r⟩, hrunning, hr⟩ := Option.bind_eq_some_iff.mp hs
    obtain ⟨-, hd⟩ := runningOn_eq_some hrunning
    obtain ⟨hplace, heq⟩ := Option.ite_none_right_eq_some.mp hr
    obtain ⟨rfl, rfl⟩ := Prod.mk.inj (Option.some.inj heq)
    exact h.put hd rfl rfl (by simp [hplace]) (by simp) (by simp) fun _ => rfl
  | finish i =>
    obtain ⟨⟨d, r⟩, hrunning, hr⟩ := Option.bind_eq_some_iff.mp hs
    obtain ⟨hi, hd⟩ := runningOn_eq_some hrunning
    obtain ⟨hplace, heq⟩ := Option.ite_none_left_eq_some.mp hr
    obtain ⟨workerPool, hfinish, heq⟩ := Option.map_eq_some_iff.mp heq
    obtain ⟨rfl, rfl⟩ := Prod.mk.inj heq
    refine h.setWorker (ThreadPool.finish_eq_some hfinish).2 (h.staffed.finish hfinish) (by simp)
      fun d' r' hi' hd' => ?_
    obtain rfl := Worker.running.inj (Option.some.inj (hi.symm.trans hi'))
    obtain rfl := Option.some.inj (hd.symm.trans hd')
    exact hplace
  | run d =>
    obtain ⟨r, hd, hr⟩ := Option.bind_eq_some_iff.mp hs
    obtain ⟨hplace, heq⟩ := Option.ite_none_right_eq_some.mp hr
    obtain ⟨rfl, rfl⟩ := Prod.mk.inj (Option.some.inj heq)
    exact h.put hd rfl rfl (by simp [hplace]) (by simp) (by simp) fun _ => rfl
  | reply d ok data =>
    obtain ⟨r, hd, hr⟩ := Option.bind_eq_some_iff.mp hs
    obtain ⟨hplace, heq⟩ := Option.ite_none_right_eq_some.mp hr
    obtain ⟨rfl, rfl⟩ := Prod.mk.inj (Option.some.inj heq)
    exact h.put hd rfl rfl (by simp [hplace]) (by simp) (by simp) fun _ => rfl
  | stop =>
    obtain ⟨rfl, rfl⟩ := Prod.mk.inj (Option.some.inj hs)
    exact h.same rfl rfl rfl h.staffed
  | stopAndDrain =>
    simp only [RpcDispatcher.step] at hs
    split at hs
    · obtain ⟨rfl, rfl⟩ := Prod.mk.inj (Option.some.inj hs)
      exact h.same rfl rfl rfl h.staffed.stopFlag
    · exact absurd hs (by simp)

/-! ## Every request comes to its answer -/

/-- The steps of the threads that work on requests, which neither bring one nor stop. -/
def DispatchLabel.inner : DispatchLabel → Bool
  | .dispatch _ _ _ | .stop | .stopAndDrain => false
  | _ => true

/-- More than the steps that a request has still to take. -/
def Place.weight : Place → Nat
  | .stopping => 9
  | .lookup => 8
  | .count _ => 7
  | .handOver _ => 6
  | .queued => 5
  | .takeBack => 3
  | .taken => 3
  | .rejected => 2
  | .called => 2
  | .sendError => 1
  | .replying => 1
  | .answered => 0

def workerWeight : Worker Nat → Nat
  | .running _ => 2
  | .waiting => 1
  | .exited => 0

/-- A bound on the steps that are left while no request comes. -/
def RpcDispatcher.work (s : RpcDispatcher) : Nat :=
  Tally.total (fun r => r.place.weight) s.dispatches +
    Tally.total workerWeight s.workerPool.workers

theorem work_put {s s' : RpcDispatcher} {d : Nat} {r r' : Dispatch}
    (hd : s.dispatches[d]? = some r) (hdispatches : s'.dispatches = s.dispatches.set d r')
    (hworkers : s'.workerPool.workers = s.workerPool.workers)
    (hweight : r'.place.weight < r.place.weight) : s'.work < s.work := by
  have htotal := Tally.total_set (fun r : Dispatch => r.place.weight) hd r'
  simp only [RpcDispatcher.work, hdispatches, hworkers]
  omega

theorem Place.Next.weight {place place' : Place} (h : place.Next place') :
    place'.weight < place.weight := by
  cases h <;> simp [Place.weight]

theorem goOn_work {s s' : RpcDispatcher} {d : Nat} {r : Dispatch} {es : List DispatchEvent}
    (hd : s.dispatches[d]? = some r) (hs : s.goOn g d r = some (s', es)) : s'.work < s.work := by
  cases goOn_cases hs with
  | error errCode errInfo hnext => exact work_put hd rfl rfl hnext.weight
  | next hnext => exact work_put hd rfl rfl hnext.weight
  | count hplace | takeBack hplace | send hplace =>
    exact work_put hd rfl rfl (by simp [hplace, Place.weight])
  | queue hplace hexecute =>
    obtain ⟨rfl, -, -⟩ := ThreadPool.tryExecute_eq_true hexecute
    exact work_put hd rfl rfl (by simp [hplace, Place.weight])

theorem take_work {s s' : RpcDispatcher} {i : Nat} (h : Handed s) (hs : s.take i = some s') :
    s'.work < s.work := by
  unfold RpcDispatcher.take at hs
  split at hs
  · rename_i d workerPool htake
    obtain ⟨r, hd, rfl⟩ := Option.map_eq_some_iff.mp hs
    obtain ⟨hi, tasks, htasks, rfl⟩ := ThreadPool.take_eq_some htake
    have hplace : r.place = .queued := h.queuedPlaces d r (htasks ▸ List.mem_cons_self) hd
    have hrequests := Tally.total_set (fun r : Dispatch => r.place.weight) hd
      { r with place := .taken }
    have hworkers := Tally.total_set workerWeight hi (.running d)
    have hbefore : r.place.weight = 5 := by rw [hplace]; rfl
    have hafter : Place.taken.weight = 3 := rfl
    simp only [hbefore, hafter] at hrequests
    simp only [workerWeight] at hworkers
    simp only [RpcDispatcher.work, RpcDispatcher.put]
    omega
  · rename_i workerPool htake
    obtain rfl := Option.some.inj hs
    obtain ⟨hi, -, -, rfl⟩ := ThreadPool.take_eq_none htake
    have hworkers := Tally.total_set workerWeight hi .exited
    simp only [workerWeight] at hworkers
    simp only [RpcDispatcher.work]
    omega
  · exact absurd hs (by simp)

/-- Every step of these threads brings them nearer to their end. -/
theorem step_work {s s' : RpcDispatcher} {l : DispatchLabel} {es : List DispatchEvent}
    (h : Handed s) (hinner : l.inner = true) (hs : s.step g l = some (s', es)) :
    s'.work < s.work := by
  cases l with
  | goOn d =>
    obtain ⟨r, hd, hr⟩ := Option.bind_eq_some_iff.mp hs
    exact goOn_work hd hr
  | take i =>
    obtain ⟨s₁, htake, heq⟩ := Option.map_eq_some_iff.mp hs
    obtain ⟨rfl, -⟩ := Prod.mk.inj heq
    exact take_work h htake
  | invoke i =>
    obtain ⟨⟨d, r⟩, hrunning, hr⟩ := Option.bind_eq_some_iff.mp hs
    obtain ⟨-, hd⟩ := runningOn_eq_some hrunning
    obtain ⟨hplace, heq⟩ := Option.ite_none_right_eq_some.mp hr
    obtain ⟨rfl, -⟩ := Prod.mk.inj (Option.some.inj heq)
    exact work_put hd rfl rfl (by simp [hplace, Place.weight])
  | finish i =>
    obtain ⟨⟨d, r⟩, hrunning, hr⟩ := Option.bind_eq_some_iff.mp hs
    obtain ⟨hi, -⟩ := runningOn_eq_some hrunning
    obtain ⟨-, heq⟩ := Option.ite_none_left_eq_some.mp hr
    obtain ⟨workerPool, hfinish, heq⟩ := Option.map_eq_some_iff.mp heq
    obtain ⟨rfl, -⟩ := Prod.mk.inj heq
    obtain ⟨-, rfl⟩ := ThreadPool.finish_eq_some hfinish
    have hworkers := Tally.total_set workerWeight hi .waiting
    simp only [workerWeight] at hworkers
    simp only [RpcDispatcher.work]
    omega
  | run d =>
    obtain ⟨r, hd, hr⟩ := Option.bind_eq_some_iff.mp hs
    obtain ⟨hplace, heq⟩ := Option.ite_none_right_eq_some.mp hr
    obtain ⟨rfl, -⟩ := Prod.mk.inj (Option.some.inj heq)
    exact work_put hd rfl rfl (by simp [hplace, Place.weight])
  | reply d ok data =>
    obtain ⟨r, hd, hr⟩ := Option.bind_eq_some_iff.mp hs
    obtain ⟨hplace, heq⟩ := Option.ite_none_right_eq_some.mp hr
    obtain ⟨rfl, -⟩ := Prod.mk.inj (Option.some.inj heq)
    exact work_put hd rfl rfl (by simp [hplace, Place.weight])
  | dispatch _ _ _ | stop | stopAndDrain => exact absurd hinner (by simp [DispatchLabel.inner])

/-- Where none of these threads can go on, every request is answered. -/
theorem answered_of_stuck {s : RpcDispatcher} (h : Handed s)
    (hstuck : ∀ l : DispatchLabel, l.inner = true → s.step g l = none) {d : Nat} {r : Dispatch}
    (hd : s.dispatches[d]? = some r) : r.place = .answered := by
  have hgoOn : s.goOn g d r = none := by
    have hnone := hstuck (.goOn d) rfl
    simpa [RpcDispatcher.step, hd] using hnone
  have hrun : r.place ≠ .called := by
    intro hplace
    have hnone := hstuck (.run d) rfl
    simp [RpcDispatcher.step, hd, hplace] at hnone
  have hreply : r.place ≠ .replying := by
    intro hplace
    have hnone := hstuck (.reply d true []) rfl
    simp [RpcDispatcher.step, hd, hplace] at hnone
  have htaken : ∀ (d' : Nat) r', s.dispatches[d']? = some r' → r'.place ≠ .taken := by
    intro d' r' hd' hplace
    obtain ⟨i, hi⟩ := h.taken d' r' hd' hplace
    have hnone := hstuck (.invoke i) rfl
    simp [RpcDispatcher.step, RpcDispatcher.runningOn, hi, hd', hplace] at hnone
  -- a request in the queue keeps a worker in its loop, which can go on
  have hqueued : r.place ≠ .queued := by
    intro hplace
    have hmem := h.queued d r hd hplace
    obtain ⟨d', tasks, htasks⟩ := List.exists_cons_of_ne_nil (List.ne_nil_of_mem hmem)
    obtain ⟨r', hd', -⟩ := h.queue d' (htasks ▸ List.mem_cons_self)
    rcases h.staffed.exists_worker (by simp [htasks]) with hi | ⟨d₁, hi⟩
    · have hnone := hstuck (.take 0) rfl
      simp [RpcDispatcher.step, RpcDispatcher.take, ThreadPool.take, hi, htasks, hd'] at hnone
    · obtain ⟨r₁, hd₁, -⟩ := h.running 0 d₁ hi
      have hnone := hstuck (.finish 0) rfl
      simp [RpcDispatcher.step, RpcDispatcher.runningOn, hi, hd₁, htaken d₁ r₁ hd₁,
        ThreadPool.finish] at hnone
  unfold RpcDispatcher.goOn at hgoOn
  cases hplace : r.place with
  | answered => rfl
  | called => exact absurd hplace hrun
  | replying => exact absurd hplace hreply
  | taken => exact absurd hplace (htaken d r hd)
  | queued => exact absurd hplace hqueued
  | stopping | rejected =>
    rw [hplace] at hgoOn
    dsimp only at hgoOn
    split at hgoOn <;> exact absurd hgoOn (by simp)
  | lookup =>
    rw [hplace] at hgoOn
    dsimp only at hgoOn
    split at hgoOn <;> exact absurd hgoOn (by simp)
  | handOver fullName =>
    rw [hplace] at hgoOn
    dsimp only at hgoOn
    split at hgoOn
    · exact absurd hgoOn (by simp)
    · split at hgoOn <;> exact absurd hgoOn (by simp)
  | count fullName | takeBack | sendError => simp [hplace] at hgoOn

/-! ## Runs -/

theorem run_accounted {s s' : RpcDispatcher} {tr es : List DispatchEvent}
    {ls : List DispatchLabel} (h : Accounted s tr ∧ Handed s)
    (hrun : run (RpcDispatcher.step g) s ls = some (s', es)) :
    Accounted s' (tr ++ es) ∧ Handed s' :=
  run_induction (fun s tr => Accounted s tr ∧ Handed s)
    (fun _ _ _ _ _ h hs => ⟨step_accounted h.1 (step_moves h.2.queuedPlaces hs),
      step_handed h.2 hs⟩) tr h hrun

/-- The threads that work on requests run out of steps. -/
theorem run_work {s s' : RpcDispatcher} {es : List DispatchEvent} {ls : List DispatchLabel}
    (h : Handed s) (hinner : ∀ l ∈ ls, l.inner = true)
    (hrun : run (RpcDispatcher.step g) s ls = some (s', es)) : ls.length + s'.work ≤ s.work := by
  induction ls generalizing s es with
  | nil =>
    obtain ⟨rfl, -⟩ : s = s' ∧ [] = es := by simpa using hrun
    simp
  | cons l ls ih =>
    obtain ⟨s₁, es₁, es₂, hs, hrun', -⟩ := run_cons_eq_some.mp hrun
    have hless := step_work h (hinner l List.mem_cons_self) hs
    have hrest := ih (step_handed h hs) (fun m hm => hinner m (List.mem_cons_of_mem _ hm)) hrun'
    rw [List.length_cons]
    omega

/-- At any moment a request has been answered once or not at all, by a message with its id
    and its method name, and `inFlight` counts the requests that have reached a service or
    the queue, or that `dispatch` is handing over. When no further request comes, every
    request comes to its answer after a bounded number of steps. -/
theorem one_response (g : Registry) (workerThreads maxPendingTasks : Nat)
    (ls : List DispatchLabel) (s : RpcDispatcher) (es : List DispatchEvent)
    (hrun : run (RpcDispatcher.step g) (.new workerThreads maxPendingTasks) ls = some (s, es)) :
    (∀ d r, s.dispatches[d]? = some r → sends d es = (if r.place = .answered then 1 else 0) ∧
        incrs d es = decrs d es + if r.place.reached ∨ r.place.handing then 1 else 0) ∧
      (∀ d c message, .sent d c message ∈ es → ∃ r, s.dispatches[d]? = some r ∧ c = r.conn ∧
        message.msgId = r.request.msgId ∧ message.methodName = r.request.methodName) ∧
      (∀ c, s.inFlight c = s.dispatches.countP fun r =>
        r.conn = c ∧ (r.place.reached ∨ r.place.handing)) ∧
      ∀ ms s' es', (∀ l ∈ ms, l.inner = true) →
        run (RpcDispatcher.step g) s ms = some (s', es') → ms.length ≤ s.work ∧
          ((∀ l : DispatchLabel, l.inner = true → s'.step g l = none) →
            ∀ d < s'.dispatches.length, sends d (es ++ es') = 1) := by
  have h := run_accounted ⟨accounted_new workerThreads maxPendingTasks,
    handed_new workerThreads maxPendingTasks⟩ hrun
  rw [List.nil_append] at h
  refine ⟨fun d r hd => ⟨h.1.sent d r hd, ?_⟩, h.1.answers, fun c => ?_,
    fun ms s' es' hinner hrun' => ⟨?_, fun hstuck d hlt => ?_⟩⟩
  · rw [h.1.counts d r hd, Dispatch.counted, Place.counted_eq]
    simp
  · rw [h.1.inFlight c, Tally.number]
    simp [Dispatch.counted, Place.counted_eq]
  · have hwork := run_work h.2 hinner hrun'
    omega
  · obtain ⟨haccounted, hhanded⟩ := run_accounted h hrun'
    have hd := List.getElem?_eq_getElem hlt
    rw [haccounted.sent d _ hd, if_pos (answered_of_stuck hhanded hstuck hd)]

/-- One service with one method, which runs on the workers. -/
def oneService : Registry :=
  { Registry.registerService {} ⟨text "s", fun name =>
      if name = text "m" then some ⟨text "s.m", fun _ => true⟩ else none⟩ with
    defaultExecutionMode := .workerPool }

/-- A request that the only worker answers. -/
def answeredByWorker : List DispatchLabel :=
  [.dispatch 0 (.tinyPB { msgId := [49], methodName := text "s.m" }) (.tinyPB {}), .goOn 0,
    .goOn 0, .goOn 0, .goOn 0, .take 0, .invoke 0, .run 0, .finish 0, .reply 0 true [1]]

theorem one_response_answered_by_worker :
    ∃ s es, run (RpcDispatcher.step oneService) (.new 1 1) answeredByWorker = some (s, es) ∧
      sends 0 es = 1 ∧ s.inFlight 0 = 0 := by
  have hrun : (run (RpcDispatcher.step oneService) (.new 1 1) answeredByWorker).map
      (fun r => decide (r.1.dispatches.map Dispatch.place = [.answered] ∧
        r.1.dispatches.countP (fun r => r.conn = 0 ∧ (r.place.reached ∨ r.place.handing)) = 0)) =
      some true := by
    decide +kernel
  obtain ⟨⟨s, es⟩, hs, heq⟩ := Option.map_eq_some_iff.mp hrun
  obtain ⟨hplaces, hcount⟩ := of_decide_eq_true heq
  obtain ⟨r, hr, hplace⟩ := List.map_eq_singleton_iff.mp hplaces
  obtain ⟨hsends, -, hinFlight, -⟩ := one_response oneService 1 1 _ s es hs
  have hd : s.dispatches[0]? = some r := congrArg (·[0]?) hr
  refine ⟨s, es, hs, ?_, ?_⟩
  · rw [(hsends 0 r hd).1, if_pos hplace]
  · rw [hinFlight 0]
    exact_mod_cast hcount

/-- `stop` comes between the check of `dispatch` and its `tryExecute`: the request is counted,
    although it has reached neither a service nor the queue. -/
theorem one_response_taken_back :
    ∃ ls s es, run (RpcDispatcher.step oneService) (.new 1 1) ls = some (s, es) ∧
      s.inFlight 0 ≠ s.dispatches.countP fun r => r.conn = 0 ∧ r.place.reached := by
  have hrun : (run (RpcDispatcher.step oneService) (.new 1 1)
      [.dispatch 0 (.tinyPB { msgId := [49], methodName := text "s.m" }) (.tinyPB {}), .goOn 0,
        .goOn 0, .goOn 0, .stop, .stopAndDrain, .goOn 0]).map (fun r =>
      decide (r.1.inFlight 0 ≠ r.1.dispatches.countP fun r => r.conn = 0 ∧ r.place.reached)) =
      some true := by
    decide +kernel
  obtain ⟨⟨s, es⟩, hs, heq⟩ := Option.map_eq_some_iff.mp hrun
  exact ⟨_, s, es, hs, of_decide_eq_true heq⟩

end RocketRpc.Rpc
