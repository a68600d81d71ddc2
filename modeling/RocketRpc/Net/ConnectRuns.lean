import RocketRpc.Net.ConnectSync

/-
  What holds in every run of a `connectSync`.

  `owes` counts the callbacks of `connect` that are still to come: the task, the callbacks of the
  descriptor, and the one that is under way. There is never more than one (`Counted`). `Queued` has
  the order of the tasks and the flags of `stop`, `Settled` that nothing is to come once the client
  may be destroyed, and `Truthful` what the callback reports.
-/

namespace RocketRpc.Net

open Machine

def ReportPlace.count : ReportPlace → Nat
  | .idle => 0
  | _ => 1

def ConnectEvent.isCalled : ConnectEvent → Bool
  | .called _ => true
  | _ => false

/-- How often `done()` was called. -/
def calls (tr : List ConnectEvent) : Nat := tr.countP ConnectEvent.isCalled

@[simp] theorem calls_append (tr es : List ConnectEvent) : calls (tr ++ es) = calls tr + calls es :=
  List.countP_append

namespace ConnectingClient

/-- The callbacks of `connect` that are still to come. -/
def owes (s : ConnectingClient) : Nat :=
  s.tasks.countP (· != .destroy) + s.finishArmed.toNat + s.work.count

/-- The callback of `connect` is called once at most. -/
structure Counted (s : ConnectingClient) (tr : List ConnectEvent) : Prop where
  credit : calls tr + s.owes ≤ 1
  idle : s.place = .idle → calls tr + s.owes = 0
  done : s.done = true → 1 ≤ calls tr
  armed : s.finishArmed = true → s.completed = false
  completed : s.completed = true → 1 ≤ calls tr + s.work.count
  working : s.work ≠ .idle → s.life = .inTurn

variable {s s' : ConnectingClient} {tr es : List ConnectEvent} {l : ConnectLabel}

theorem counted_new (owned onLoop : Bool) : Counted (.new owned onLoop) [] where
  credit := by simp [calls, owes, new, ReportPlace.count]
  idle _ := rfl
  done h := by simp [new] at h
  armed h := by simp [new] at h
  completed h := by simp [new] at h
  working h := absurd rfl h

/-- No callback is begun, and the one that is under way stays where it is. -/
theorem Counted.of_le (h : Counted s tr) (howes : s'.owes ≤ s.owes)
    (harmed : s'.finishArmed = true → s.finishArmed = true) (hwork : s'.work = s.work)
    (hdone : s'.done = s.done) (hcompleted : s'.completed = s.completed)
    (hlife : s'.life = s.life) (hplace : s'.place = .idle → s.place = .idle)
    (hes : calls es = 0) : Counted s' (tr ++ es) := by
  have hcalls : calls (tr ++ es) = calls tr := by rw [calls_append, hes, Nat.add_zero]
  have hcredit := h.credit
  constructor
  · omega
  · intro hidle
    have hzero := h.idle (hplace hidle)
    omega
  · rw [hcalls, hdone]
    exact h.done
  · rw [hcompleted]
    exact fun harmed' => h.armed (harmed harmed')
  · rw [hcalls, hcompleted, hwork]
    exact h.completed
  · rw [hwork, hlife]
    exact h.working

/-- The owner goes on, and leaves the loop alone. -/
theorem Counted.of_same (h : Counted s tr) (htasks : s'.tasks = s.tasks)
    (harmed : s'.finishArmed = s.finishArmed) (hwork : s'.work = s.work) (hdone : s'.done = s.done)
    (hcompleted : s'.completed = s.completed) (hlife : s'.life = s.life)
    (hplace : s'.place = .idle → s.place = .idle) (hes : calls es = 0) : Counted s' (tr ++ es) :=
  h.of_le (Nat.le_of_eq (by rw [owes, owes, htasks, harmed, hwork])) (fun h => harmed ▸ h) hwork
    hdone hcompleted hlife hplace hes

/-- The callback that is under way goes on. -/
theorem Counted.goOn (h : Counted s tr) (hwork : s.work ≠ .idle) {work : ReportPlace}
    (hwork' : work ≠ .idle) (code : Nat) (info : ConnectInfo) :
    Counted { s with work, errorCode := code, errorInfo := info } (tr ++ []) := by
  have hcount : work.count = s.work.count := by
    cases work <;> cases hw : s.work <;> simp_all [ReportPlace.count]
  have howes : ({ s with work, errorCode := code, errorInfo := info } : ConnectingClient).owes =
      s.owes := by simp only [owes, hcount]
  rw [List.append_nil]
  refine ⟨by rw [howes]; exact h.credit, by rw [howes]; exact h.idle, h.done, h.armed,
    fun hcompleted => ?_, fun _ => h.working hwork⟩
  simp only [hcount]
  exact h.completed hcompleted

theorem Counted.next (h : Counted s tr) (next : StopNext) :
    Counted (s.next next).1 (tr ++ (s.next next).2) := by
  cases next with
  | returns => exact h.of_same rfl rfl rfl rfl rfl rfl (by simp [ConnectingClient.next]) rfl
  | gone => exact h.of_same rfl rfl rfl rfl rfl rfl (by simp [ConnectingClient.next]) rfl

theorem establishes_calls {state : TcpState} (h : Establishes s state es) : calls es = 0 := by
  cases h <;> rfl

/-- The loop takes its task and begins to report. -/
theorem Counted.report (h : Counted s tr) {task : ConnectTask} {tasks : List ConnectTask}
    (htask : task ≠ .destroy) (htasks : s.tasks = task :: tasks) (hturn : s.mayTurn = true)
    (e : Nat) (state : TcpState) (hes : calls es = 0) :
    Counted { s with tasks, work := .report e, state } (tr ++ es) := by
  obtain ⟨hlife, hwork⟩ := work_idle_of_mayTurn hturn
  have hcredit := h.credit
  simp only [owes, htasks, hwork, ReportPlace.count, List.countP_cons, bne_iff_ne, ne_eq, htask,
    not_false_eq_true, if_true] at hcredit
  have hcalls : calls (tr ++ es) = calls tr := by rw [calls_append, hes, Nat.add_zero]
  have hidle : s.place ≠ .idle := fun hp => by
    have hzero := h.idle hp
    simp [owes, htasks, htask] at hzero
  constructor
  · simp only [hcalls, owes, ReportPlace.count]
    omega
  · exact fun hp => absurd hp hidle
  · exact fun hdone => by simpa [hcalls] using h.done hdone
  · exact h.armed
  · exact fun _ => by simp [ReportPlace.count]
  · exact fun _ => hlife

/-- `finish` begins to report. -/
theorem Counted.finish (h : Counted s tr) (harmed : s.finishArmed = true)
    (hturn : s.mayTurn = true) (e : Nat) (state : TcpState) (hes : calls es = 0) :
    Counted { s with completed := true, finishArmed := false, work := .report e, state }
      (tr ++ es) := by
  obtain ⟨hlife, hwork⟩ := work_idle_of_mayTurn hturn
  have hcredit := h.credit
  simp only [owes, harmed, hwork, ReportPlace.count, Bool.toNat_true] at hcredit
  have hcalls : calls (tr ++ es) = calls tr := by rw [calls_append, hes, Nat.add_zero]
  have hidle : s.place ≠ .idle := fun hp => by
    have hzero := h.idle hp
    simp [owes, harmed] at hzero
  constructor
  · simp only [hcalls, owes, ReportPlace.count, Bool.toNat_false]
    omega
  · exact fun hp => absurd hp hidle
  · exact fun hdone => by simpa [hcalls] using h.done hdone
  · exact fun hfalse => absurd hfalse (by simp)
  · exact fun _ => by simp [ReportPlace.count]
  · exact fun _ => hlife

theorem step_counted (h : Counted s tr) (hs : Steps s l s' es) : Counted s' (tr ++ es) := by
  cases hs with
  | @connectFails r e info hp he hinfo =>
    have hzero := h.idle hp
    have howes : (s.connectFails e info).1.owes = s.owes := rfl
    have hcalls : calls (tr ++ [.failed e, .called true]) = calls tr + 1 := by
      simp [calls, ConnectEvent.isCalled]
    constructor
    · rw [hcalls, howes]
      omega
    · exact fun hidle => absurd hidle (by simp [ConnectingClient.connectFails])
    · exact fun _ => by omega
    · exact h.armed
    · exact fun _ => by omega
    · exact h.working
  | @connectQueues r task hp htask =>
    have hzero := h.idle hp
    have howes : (s.connectQueues task).owes = s.owes + 1 := by
      simp [owes, connectQueues, setConnectError, htask]
      omega
    rw [List.append_nil]
    refine ⟨by omega, fun hidle => absurd hidle (by simp [connectQueues]), h.done, h.armed,
      h.completed, h.working⟩
  | wakes hp | timesOut hp | writeInfo hp | writeCode hp | exchange hp | lookLooping hp
  | lookAway hp | seesDestroyed hp | joins hp | drop hp =>
    exact h.of_same rfl rfl rfl rfl rfl rfl (by simp) rfl
  | stoppedBefore | leaves | joined => exact h.next _
  | detaches =>
    have hflag : Counted { s with stopFlag := true } tr :=
      ⟨h.credit, h.idle, h.done, h.armed, h.completed, h.working⟩
    exact hflag.next _
  | @lookOnLoop next hp hloop =>
    refine h.of_le ?_ (by simp [connectDestroyed]) rfl rfl rfl rfl (by simp) rfl
    simp [owes, connectDestroyed]
  | queue hp =>
    refine h.of_le ?_ id rfl rfl rfl rfl (by simp) rfl
    simp [owes]
  | lives hlife hwork =>
    have hidle : s.work = .idle := by
      by_contra hwork'
      exact hwork' (hwork (h.working hwork'))
    rw [List.append_nil]
    exact ⟨h.credit, h.idle, h.done, h.armed, h.completed, fun hwork' => absurd hidle hwork'⟩
  | establish hturn htasks hes => exact h.report (by simp) htasks hturn 0 _ (establishes_calls hes)
  | arms hturn htasks hstate =>
    obtain ⟨hlife, hwork⟩ := work_idle_of_mayTurn hturn
    have hcredit := h.credit
    have hidle := h.idle
    have hcompleted := h.completed
    simp only [owes, htasks, hwork, ReportPlace.count, List.countP_cons] at hcredit hidle hcompleted
    have hnot : s.completed = false := by
      by_contra hcompleted'
      have hcalls := hcompleted (by simpa using hcompleted')
      simp at hcredit
      omega
    rw [List.append_nil]
    refine ⟨?_, fun hp => ?_, h.done, fun _ => hnot, h.completed, h.working⟩
    · simp only [owes, hwork, ReportPlace.count, Bool.toNat_true]
      simp at hcredit
      omega
    · have hzero := hidle hp
      simp at hzero
  | late hturn htasks hstate =>
    exact h.report (by simp) htasks hturn EISCONN s.state rfl
  | destroys hturn htasks =>
    refine h.of_le ?_ (by simp) rfl rfl rfl rfl id rfl
    simp [owes, htasks]
  | ignores => rwa [List.append_nil]
  | connected hturn harmed hcompleted hes =>
    exact h.finish harmed hturn 0 _ (establishes_calls hes)
  | refused hturn harmed hcompleted he => exact h.finish harmed hturn _ .closed rfl
  | unlocked hwork hp => exact h.goOn (by simp [hwork]) (by simp) _ _
  | info hwork hp => exact h.goOn (by simp [hwork]) (by simp) _ _
  | code hwork => exact h.goOn (by simp [hwork]) (by simp) _ _
  | done hwork =>
    have hcredit := h.credit
    simp only [owes, hwork, ReportPlace.count] at hcredit
    have hcalls : calls (tr ++ [.called (s.place != .gone)]) = calls tr + 1 := by
      simp [calls, ConnectEvent.isCalled]
    constructor
    · simp only [hcalls, owes, ConnectingClient.callDone, ReportPlace.count]
      omega
    · intro hp
      have hzero := h.idle hp
      simp [owes, hwork, ReportPlace.count] at hzero
    · exact fun _ => by omega
    · exact h.armed
    · exact fun _ => by omega
    · exact fun hwork' => absurd rfl hwork'
  | lost hturn hstate =>
    refine h.of_le ?_ (by simp) rfl rfl rfl rfl id rfl
    simp [owes]
  | stopped => exact h.of_same rfl rfl rfl rfl rfl rfl id rfl

/-! ## The tasks and the flags of `stop` -/

end ConnectingClient

/-- In front of the queue of the loop, in `stop`. -/
def ConnectPlace.looks : ConnectPlace → Bool
  | .look _ _ | .queue _ => true
  | _ => false

/-- In front of the `stop` of `connectSync`. -/
def ConnectPlace.early : ConnectPlace → Bool
  | .idle | .waiting | .timedOut | .timedOutCode | .stop .returns => true
  | _ => false

/-- Behind the exchange of `m_stopped`. -/
def ConnectPlace.stops : ConnectPlace → Bool
  | .look _ _ | .queue _ | .waitDestroyed _ | .stopLoop _ | .joining _ => true
  | .returned r => r == -1
  | _ => false

namespace ConnectingClient

variable {s s' : ConnectingClient} {tr es : List ConnectEvent} {l : ConnectLabel}

/-- The task that `stop` waits for. -/
def awaited (s : ConnectingClient) : List ConnectTask :=
  match s.place with
  | .waitDestroyed _ => if s.destroyed then [] else [.destroy]
  | _ => []

/-- A time limit is only reached where there is a connection, and a thread if it was owned. -/
def Initiated (s : ConnectingClient) : Prop :=
  let thread := s.owned = true → s.hasThread = true
  match s.place with
  | .waiting => s.done = false → s.connection = true ∧ thread
  | .timedOut | .timedOutCode | .stop .returns => s.connection = true ∧ thread
  | .look connection .returns => connection = true ∧ thread
  | .queue .returns | .waitDestroyed .returns | .stopLoop .returns => thread
  | _ => True

/-- The task of `connect` is in front of that of `stop`, and `stop` does its work once. -/
structure Queued (s : ConnectingClient) : Prop where
  shape : ∃ pre, (∀ t ∈ pre, t ≠ .destroy) ∧ s.tasks = pre ++ s.awaited
  unstopped : s.stopped = false → s.destroyed = false
  looking : s.place.looks = true → s.destroyed = false
  early : s.place.early = true → s.stopped = false
  stops : s.place.stops = true → s.stopped = true ∧ s.connection = false
  initiated : s.Initiated

theorem queued_new (owned onLoop : Bool) : Queued (.new owned onLoop) where
  shape := ⟨[], by simp, rfl⟩
  unstopped _ := rfl
  looking h := by simp [new, ConnectPlace.looks] at h
  early _ := rfl
  stops h := by simp [new, ConnectPlace.stops] at h
  initiated := trivial

/-- A step of the loop that leaves the tasks alone. -/
theorem Queued.of_same (h : Queued s) (htasks : s'.tasks = s.tasks) (hplace : s'.place = s.place)
    (hdestroyed : s'.destroyed = s.destroyed) (hstopped : s'.stopped = s.stopped)
    (hconnection : s'.connection = s.connection) (howned : s'.owned = s.owned)
    (hthread : s'.hasThread = s.hasThread) (hdone : s'.done = false → s.done = false) :
    Queued s' := by
  have hinitiated := h.initiated
  constructor
  · rw [awaited, htasks, hplace, hdestroyed]
    exact h.shape
  · rw [hstopped, hdestroyed]
    exact h.unstopped
  · rw [hplace, hdestroyed]
    exact h.looking
  · rw [hplace, hstopped]
    exact h.early
  · rw [hplace, hstopped, hconnection]
    exact h.stops
  · rw [Initiated, howned, hthread, hplace, hconnection]
    rw [Initiated] at hinitiated
    split <;> simp_all

/-- A step of the loop that takes the task of `connect`. -/
theorem Queued.take (h : Queued s) {task : ConnectTask} {tasks : List ConnectTask}
    (htask : task ≠ .destroy) (htasks : s.tasks = task :: tasks) (work : ReportPlace)
    (state : TcpState) (armed : Bool) :
    Queued { s with tasks, work, state, finishArmed := armed } := by
  refine ⟨?_, h.unstopped, h.looking, h.early, h.stops, h.initiated⟩
  obtain ⟨pre, hpre, heq⟩ := h.shape
  cases pre with
  | nil =>
    have hmem : task ∈ s.awaited := by
      rw [htasks, List.nil_append] at heq
      exact heq ▸ List.mem_cons_self
    refine absurd ?_ htask
    unfold awaited at hmem
    split at hmem
    · split at hmem <;> simp at hmem
      exact hmem
    · simp at hmem
  | cons t pre =>
    rw [htasks, List.cons_append] at heq
    exact ⟨pre, fun t ht => hpre t (List.mem_cons_of_mem _ ht), (List.cons.inj heq).2⟩

/-- The task of `stop` is the last one, and `stop` is waiting for it. -/
theorem Queued.destroys (h : Queued s) {tasks : List ConnectTask}
    (htasks : s.tasks = .destroy :: tasks) :
    tasks = [] ∧ s.destroyed = false ∧ ∃ next, s.place = .waitDestroyed next := by
  obtain ⟨pre, hpre, heq⟩ := h.shape
  cases pre with
  | nil =>
    rw [htasks, List.nil_append] at heq
    unfold awaited at heq
    split at heq
    · rename_i next hp
      split at heq
      · simp at heq
      · rename_i hdestroyed
        exact ⟨(List.cons.inj heq).2, Bool.eq_false_iff.mpr hdestroyed, next, hp⟩
    · simp at heq
  | cons t pre =>
    rw [htasks, List.cons_append] at heq
    exact absurd (List.cons.inj heq).1.symm (hpre t List.mem_cons_self)

/-- `stop` comes to its end. -/
theorem Queued.next (h : Queued s) (hstops : s.place.stops = true) (hempty : s.awaited = [])
    (next : StopNext) : Queued (s.next next).1 := by
  obtain ⟨hstopped, hconnection⟩ := h.stops hstops
  have hshape := h.shape
  rw [hempty] at hshape
  cases next with
  | returns =>
    exact ⟨hshape, h.unstopped, fun hp => by simp [ConnectingClient.next, ConnectPlace.looks] at hp,
      fun hp => by simp [ConnectingClient.next, ConnectPlace.early] at hp,
      fun _ => ⟨hstopped, hconnection⟩, trivial⟩
  | gone =>
    exact ⟨hshape, h.unstopped, fun hp => by simp [ConnectingClient.next, ConnectPlace.looks] at hp,
      fun hp => by simp [ConnectingClient.next, ConnectPlace.early] at hp,
      fun hp => by simp [ConnectingClient.next, ConnectPlace.stops] at hp, trivial⟩

/-- The owner goes on, and neither queues nor waits for a task. -/
theorem Queued.move (h : Queued s) (hempty : s.awaited = []) (hempty' : s'.awaited = [])
    (htasks : s'.tasks = s.tasks) (hdestroyed : s'.destroyed = s.destroyed)
    (hstopped : s'.stopped = s.stopped) (hlooking : s'.place.looks = true → s.place.looks = true)
    (hearly : s'.place.early = true → s.place.early = true)
    (hstops : s'.place.stops = true → s.place.stops = true ∧ s'.connection = s.connection)
    (hinitiated : s'.Initiated) : Queued s' := by
  have hshape := h.shape
  rw [hempty] at hshape
  constructor
  · rw [hempty', htasks]
    exact hshape
  · rw [hstopped, hdestroyed]
    exact h.unstopped
  · rw [hdestroyed]
    exact fun hp => h.looking (hlooking hp)
  · rw [hstopped]
    exact fun hp => h.early (hearly hp)
  · intro hp
    obtain ⟨hp', hconnection⟩ := hstops hp
    rw [hstopped, hconnection]
    exact h.stops hp'
  · exact hinitiated

theorem awaited_eq_nil (hp : ∀ next, s.place ≠ .waitDestroyed next) : s.awaited = [] := by
  unfold awaited
  split
  · rename_i next heq
    exact absurd heq (hp next)
  · rfl

theorem awaited_of_destroyed (hdestroyed : s.destroyed = true) : s.awaited = [] := by
  unfold awaited
  split
  · rw [if_pos hdestroyed]
  · rfl

theorem step_queued (h : Queued s) (hs : Steps s l s' es) : Queued s' := by
  have hinitiated := h.initiated
  cases hs with
  | connectFails hp he hinfo =>
    have hempty : s.awaited = [] := awaited_eq_nil (by simp [hp])
    have hstopped := h.early (by simp [hp, ConnectPlace.early])
    have hshape := h.shape
    rw [hempty] at hshape
    exact ⟨hshape, fun _ => h.unstopped hstopped, fun _ => h.unstopped hstopped, fun _ => rfl,
      fun hp' => by simp [ConnectingClient.connectFails, ConnectPlace.stops] at hp',
      fun hdone => by simp [ConnectingClient.connectFails, ConnectingClient.callDone] at hdone⟩
  | @connectQueues r task hp htask =>
    have hempty : s.awaited = [] := awaited_eq_nil (by simp [hp])
    have hstopped := h.early (by simp [hp, ConnectPlace.early])
    obtain ⟨pre, hpre, heq⟩ := h.shape
    refine ⟨⟨pre ++ [task], fun t ht => ?_, ?_⟩, fun _ => h.unstopped hstopped,
      fun _ => h.unstopped hstopped, fun _ => rfl,
      fun hp' => by simp [connectQueues, ConnectPlace.stops] at hp', fun _ => ⟨rfl, id⟩⟩
    · rcases List.mem_append.mp ht with ht | ht
      · exact hpre t ht
      · rwa [List.mem_singleton.mp ht]
    · rw [hempty, List.append_nil] at heq
      simp [connectQueues, awaited, heq, setConnectError]
  | wakes hp hdone =>
    exact h.move (awaited_eq_nil (by simp [hp])) rfl rfl rfl rfl (by simp [ConnectPlace.looks])
      (by simp [ConnectPlace.early]) (fun hp' => by simp [ConnectPlace.stops] at hp') trivial
  | timesOut hp hdone =>
    refine h.move (awaited_eq_nil (by simp [hp])) rfl rfl rfl rfl (by simp [ConnectPlace.looks])
      (by simp [hp, ConnectPlace.early]) (by simp [ConnectPlace.stops]) ?_
    simp only [Initiated, hp] at hinitiated
    exact hinitiated hdone
  | writeInfo hp =>
    refine h.move (awaited_eq_nil (by simp [hp])) rfl rfl rfl rfl (by simp [ConnectPlace.looks])
      (by simp [hp, ConnectPlace.early]) (by simp [ConnectPlace.stops]) ?_
    simpa only [Initiated, hp] using hinitiated
  | writeCode hp =>
    refine h.move (awaited_eq_nil (by simp [hp])) rfl rfl rfl rfl (by simp [ConnectPlace.looks])
      (by simp [hp, ConnectPlace.early]) (by simp [ConnectPlace.stops]) ?_
    simpa only [Initiated, hp] using hinitiated
  | @stoppedBefore next hp hstopped =>
    cases next with
    | returns =>
      have hnot := h.early (by simp [hp, ConnectPlace.early])
      exact absurd (hnot.symm.trans hstopped) (by simp)
    | gone =>
      exact h.move (awaited_eq_nil (by simp [hp])) rfl rfl rfl rfl
        (by simp [ConnectingClient.next, ConnectPlace.looks])
        (by simp [ConnectingClient.next, ConnectPlace.early])
        (by simp [ConnectingClient.next, ConnectPlace.stops]) trivial
  | @exchange next hp hstopped =>
    have hempty : s.awaited = [] := awaited_eq_nil (by simp [hp])
    have hshape := h.shape
    rw [hempty] at hshape
    refine ⟨hshape, fun hfalse => absurd hfalse (by simp), fun _ => h.unstopped hstopped,
      fun hp' => by simp [ConnectPlace.early] at hp', fun _ => ⟨rfl, rfl⟩, ?_⟩
    cases next with
    | returns => simpa only [Initiated, hp] using hinitiated
    | gone => trivial
  | @lookOnLoop next hp hloop =>
    refine h.move (awaited_eq_nil (by simp [hp])) rfl rfl rfl rfl (by simp [ConnectPlace.looks])
      (by simp [ConnectPlace.early]) (fun _ => ⟨by simp [hp, ConnectPlace.stops], rfl⟩) ?_
    cases next with
    | returns =>
      simp only [Initiated, hp] at hinitiated
      exact hinitiated.2
    | gone => trivial
  | @lookLooping next hp hloop hlooping =>
    refine h.move (awaited_eq_nil (by simp [hp])) rfl rfl rfl rfl (by simp [hp, ConnectPlace.looks])
      (by simp [ConnectPlace.early]) (fun _ => ⟨by simp [hp, ConnectPlace.stops], rfl⟩) ?_
    cases next with
    | returns =>
      simp only [Initiated, hp] at hinitiated
      exact hinitiated.2
    | gone => trivial
  | @lookAway connection next hp haway =>
    refine h.move (awaited_eq_nil (by simp [hp])) rfl rfl rfl rfl (by simp [ConnectPlace.looks])
      (by simp [ConnectPlace.early]) (fun _ => ⟨by simp [hp, ConnectPlace.stops], rfl⟩) ?_
    cases next with
    | returns =>
      simp only [Initiated, hp] at hinitiated
      exact hinitiated.2
    | gone => trivial
  | @queue next hp =>
    have hempty : s.awaited = [] := awaited_eq_nil (by simp [hp])
    have hdestroyed := h.looking (by simp [hp, ConnectPlace.looks])
    obtain ⟨pre, hpre, heq⟩ := h.shape
    refine ⟨⟨pre, hpre, ?_⟩, h.unstopped, fun _ => hdestroyed,
      fun hp' => by simp [ConnectPlace.early] at hp',
      fun _ => h.stops (by simp [hp, ConnectPlace.stops]), ?_⟩
    · rw [hempty, List.append_nil] at heq
      simp [awaited, hdestroyed, heq]
    · cases next with
      | returns => simpa only [Initiated, hp] using hinitiated
      | gone => trivial
  | @seesDestroyed next hp hdestroyed =>
    refine h.move (awaited_of_destroyed hdestroyed) rfl rfl rfl rfl (by simp [ConnectPlace.looks])
      (by simp [ConnectPlace.early]) (fun _ => ⟨by simp [hp, ConnectPlace.stops], rfl⟩) ?_
    cases next with
    | returns => simpa only [Initiated, hp] using hinitiated
    | gone => trivial
  | leaves hp => exact h.next (by simp [hp, ConnectPlace.stops]) (awaited_eq_nil (by simp [hp])) _
  | joins hp =>
    exact h.move (awaited_eq_nil (by simp [hp])) rfl rfl rfl rfl (by simp [ConnectPlace.looks])
      (by simp [ConnectPlace.early]) (fun _ => ⟨by simp [hp, ConnectPlace.stops], rfl⟩) trivial
  | detaches hp =>
    have hflag : Queued { s with stopFlag := true } :=
      h.of_same rfl rfl rfl rfl rfl rfl rfl id
    exact hflag.next (by simp [hp, ConnectPlace.stops]) (awaited_eq_nil (by simp [hp])) _
  | joined hp => exact h.next (by simp [hp, ConnectPlace.stops]) (awaited_eq_nil (by simp [hp])) _
  | drop hp =>
    exact h.move (awaited_eq_nil (by simp [hp])) rfl rfl rfl rfl (by simp [ConnectPlace.looks])
      (by simp [ConnectPlace.early]) (by simp [ConnectPlace.stops]) trivial
  | establish hturn htasks hes => exact h.take (by simp) htasks _ _ s.finishArmed
  | arms hturn htasks hstate => exact h.take (by simp) htasks s.work s.state true
  | late hturn htasks hstate => exact h.take (by simp) htasks _ s.state s.finishArmed
  | destroys hturn htasks =>
    obtain ⟨rfl, hdestroyed, next, hp⟩ := h.destroys htasks
    obtain ⟨hstopped, hconnection⟩ := h.stops (by simp [hp, ConnectPlace.stops])
    exact ⟨⟨[], by simp, (awaited_of_destroyed rfl).symm⟩,
      fun hfalse => absurd (hstopped.symm.trans hfalse) (by simp),
      fun hp' => by simp [hp, ConnectPlace.looks] at hp', h.early, h.stops, hinitiated⟩
  | lives | connected | refused | unlocked | info | code | lost | stopped =>
    exact h.of_same rfl rfl rfl rfl rfl rfl rfl id
  | ignores => exact h
  | done => exact h.of_same rfl rfl rfl rfl rfl rfl rfl (by simp [ConnectingClient.callDone])

/-! ## Nothing is to come -/

/-- No callback of `connect` is to come. -/
def Quiet (s : ConnectingClient) : Prop := s.owes = 0 ∨ s.life = .ended

def Closed (s : ConnectingClient) : Prop := s.state = .closed ∨ s.life = .ended

/-- From the return of `connectSync` on nothing is to come; within `stop` that is so as soon as the
    loop has dropped the connection, or will be when the thread has ended. -/
def Settled (s : ConnectingClient) : Prop :=
  match s.place with
  | .returned r => s.Quiet ∧ (r = -1 → s.Closed)
  | .stop .gone | .look _ .gone | .queue .gone | .waitDestroyed .gone | .stopLoop .gone
  | .joining .gone | .gone => s.Quiet
  | .waitDestroyed .returns => s.destroyed = true → s.Quiet ∧ s.Closed
  | .stopLoop .returns => s.Quiet ∧ s.Closed ∨ s.owned = true ∧ s.onLoop = false
  | _ => True

/-- The `stop` of `connectSync` looks at a loop that has begun, or at one that it will join, and
    not on its thread. -/
def LooksInTime (s : ConnectingClient) (l : ConnectLabel) : Prop :=
  l = .look → s.place = .look true .returns →
    s.onLoop = false ∧ (s.owned = true ∨ s.life ≠ .notLooping)

instance (s : ConnectingClient) : DecidablePred (LooksInTime s) := fun _ =>
  inferInstanceAs (Decidable (_ → _ → _))

theorem Counted.quiet_of_done (h : Counted s tr) (hdone : s.done = true) : s.Quiet := by
  have hcalls := h.done hdone
  have hcredit := h.credit
  exact Or.inl (by omega)

theorem owes_of_task {task : ConnectTask} {tasks : List ConnectTask} (htask : task ≠ .destroy)
    (htasks : s.tasks = task :: tasks) : 0 < s.owes := by
  have hcount : 0 < s.tasks.countP (· != .destroy) :=
    List.countP_pos_iff.mpr ⟨task, by simp [htasks], by simpa using htask⟩
  unfold owes
  omega

theorem owes_of_armed (harmed : s.finishArmed = true) : 0 < s.owes := by
  unfold owes
  rw [harmed, Bool.toNat_true]
  omega

theorem owes_of_work (hwork : s.work ≠ .idle) : 0 < s.owes := by
  have hcount : 0 < s.work.count := by
    cases hw : s.work with
    | idle => exact absurd hw hwork
    | _ => simp [ReportPlace.count]
  simp only [owes]
  omega

theorem not_quiet (howes : 0 < s.owes) (hlife : s.life = .inTurn) : ¬ s.Quiet := by
  intro hquiet
  rcases hquiet with hzero | hended
  · omega
  · exact absurd (hlife.symm.trans hended) (by simp)

/-- A step of the loop. -/
theorem Settled.loop (h : Settled s) (hplace : s'.place = s.place) (hquiet : s.Quiet → s'.Quiet)
    (hclosed : s.Closed → s'.Closed) (hdestroyed : s'.destroyed = s.destroyed)
    (howned : s'.owned = s.owned) (hloop : s'.onLoop = s.onLoop) : Settled s' := by
  unfold Settled at h ⊢
  rw [hplace, hdestroyed, howned, hloop]
  split <;> rename_i heq <;> simp only [heq] at h
  · exact ⟨hquiet h.1, fun hr => hclosed (h.2 hr)⟩
  iterate 7 exact hquiet h
  · exact fun hd => ⟨hquiet (h hd).1, hclosed (h hd).2⟩
  · exact h.imp_left fun h => ⟨hquiet h.1, hclosed h.2⟩
  · trivial

theorem establishes_closed {state : TcpState} (h : Establishes s state es)
    (hclosed : s.state = .closed) : state = .closed := by
  cases h with
  | first hstate => exact absurd (hclosed.symm.trans hstate) (by simp)
  | again => exact hclosed

/-- `stop` comes to its end, with nothing left to come. -/
theorem settled_next (hquiet : s.Quiet) {next : StopNext} (hclosed : next = .returns → s.Closed) :
    Settled (s.next next).1 := by
  cases next with
  | returns => exact ⟨hquiet, fun _ => hclosed rfl⟩
  | gone => exact hquiet

theorem step_settled (hc : Counted s tr) (hq : Queued s) (h : Settled s) (hok : LooksInTime s l)
    (hs : Steps s l s' es) : Settled s' := by
  have hinitiated := hq.initiated
  cases hs with
  | connectFails | connectQueues | timesOut | writeInfo | writeCode => trivial
  | wakes hp hdone =>
    refine ⟨hc.quiet_of_done hdone, fun hr => ?_⟩
    omega
  | @stoppedBefore next hp hstopped =>
    cases next with
    | returns =>
      have hnot := hq.early (by simp [hp, ConnectPlace.early])
      exact absurd (hnot.symm.trans hstopped) (by simp)
    | gone =>
      simp only [Settled, hp] at h
      exact h
  | @exchange next hp hstopped =>
    cases next with
    | returns => trivial
    | gone =>
      simp only [Settled, hp] at h
      exact h
  | @lookOnLoop next hp hloop =>
    cases next with
    | returns => exact absurd ((hok rfl hp).1.symm.trans hloop) (by simp)
    | gone =>
      simp only [Settled, hp] at h
      refine h.imp_left fun hzero => ?_
      simp only [owes, connectDestroyed, Bool.toNat_false] at hzero ⊢
      omega
  | @lookLooping next hp hloop hlooping =>
    cases next with
    | returns => trivial
    | gone =>
      simp only [Settled, hp] at h
      exact h
  | @lookAway connection next hp haway =>
    cases next with
    | returns =>
      simp only [Initiated, hp] at hinitiated
      obtain ⟨rfl, -⟩ := hinitiated
      obtain ⟨hloop, howned | hbegun⟩ := hok rfl hp
      · exact Or.inr ⟨howned, hloop⟩
      · -- a loop that has begun and is not looping has ended
        have hended : s.life = .ended := by
          have hnot := (haway rfl).2
          cases hlife : s.life <;> simp_all [isLooping]
        exact Or.inl ⟨Or.inr hended, Or.inr hended⟩
    | gone =>
      simp only [Settled, hp] at h
      exact h
  | @queue next hp =>
    have hdestroyed := hq.looking (by simp [hp, ConnectPlace.looks])
    cases next with
    | returns => exact fun hd => absurd (hdestroyed.symm.trans hd) (by simp)
    | gone =>
      simp only [Settled, hp] at h
      exact h.imp_left fun hzero => by simpa [owes] using hzero
  | @seesDestroyed next hp hdestroyed =>
    cases next with
    | returns =>
      simp only [Settled, hp] at h
      exact Or.inl (h hdestroyed)
    | gone =>
      simp only [Settled, hp] at h
      exact h
  | @leaves next hp howned =>
    cases next with
    | returns =>
      simp only [Settled, hp, howned, Bool.false_eq_true, false_and, or_false] at h
      exact settled_next h.1 fun _ => h.2
    | gone =>
      simp only [Settled, hp] at h
      exact settled_next h (by simp)
  | @joins next hp =>
    cases next with
    | returns => trivial
    | gone =>
      simp only [Settled, hp] at h
      exact h
  | @detaches next hp howned hthread =>
    cases next with
    | returns =>
      simp only [Settled, Initiated, hp] at h hinitiated
      rcases h with h | ⟨-, hloop⟩
      · exact settled_next (s := { s with stopFlag := true }) h.1 fun _ => h.2
      · exact absurd ((hthread (hinitiated howned)).symm.trans hloop) (by simp)
    | gone =>
      simp only [Settled, hp] at h
      exact settled_next (s := { s with stopFlag := true }) h (by simp)
  | joined hp hlife => exact settled_next (Or.inr hlife) fun _ => Or.inr hlife
  | drop hp =>
    simp only [Settled, hp] at h
    exact h.1
  | lives hlife hwork =>
    exact h.loop rfl (fun hquiet => hquiet.imp_right fun hended => absurd hended hlife)
      (fun hclosed => hclosed.imp_right fun hended => absurd hended hlife) rfl rfl rfl
  | establish hturn htasks hes =>
    refine h.loop rfl (fun hquiet => absurd hquiet ?_)
      (fun hclosed => hclosed.imp_left (establishes_closed hes)) rfl rfl rfl
    exact not_quiet (owes_of_task (by simp) htasks) (work_idle_of_mayTurn hturn).1
  | arms hturn htasks hstate =>
    refine h.loop rfl (fun hquiet => absurd hquiet ?_) id rfl rfl rfl
    exact not_quiet (owes_of_task (by simp) htasks) (work_idle_of_mayTurn hturn).1
  | late hturn htasks hstate =>
    refine h.loop rfl (fun hquiet => absurd hquiet ?_) id rfl rfl rfl
    exact not_quiet (owes_of_task (by simp) htasks) (work_idle_of_mayTurn hturn).1
  | destroys hturn htasks =>
    obtain ⟨rfl, hdestroyed, next, hp⟩ := hq.destroys htasks
    -- the task of `connect` has run, and its callbacks are cleared now
    have hquiet : Quiet { s with
        tasks := [], state := .closed, finishArmed := false, destroyed := true } := by
      refine Or.inl ?_
      simp [owes, (work_idle_of_mayTurn hturn).2, ReportPlace.count]
    unfold Settled
    simp only [hp]
    cases next with
    | returns => exact fun _ => ⟨hquiet, Or.inl rfl⟩
    | gone => exact hquiet
  | ignores => exact h
  | connected hturn harmed hcompleted hes =>
    refine h.loop rfl (fun hquiet => absurd hquiet ?_)
      (fun hclosed => hclosed.imp_left (establishes_closed hes)) rfl rfl rfl
    exact not_quiet (owes_of_armed harmed) (work_idle_of_mayTurn hturn).1
  | refused hturn harmed hcompleted he =>
    refine h.loop rfl (fun hquiet => absurd hquiet ?_) (fun _ => Or.inl rfl) rfl rfl rfl
    exact not_quiet (owes_of_armed harmed) (work_idle_of_mayTurn hturn).1
  | unlocked hwork | info hwork | code hwork | done hwork =>
    refine h.loop rfl (fun hquiet => absurd hquiet ?_) id rfl rfl rfl
    exact not_quiet (owes_of_work (by simp [hwork])) (hc.working (by simp [hwork]))
  | lost hturn hstate =>
    refine h.loop rfl (fun hquiet => hquiet.imp_left fun hzero => ?_) (fun _ => Or.inl rfl) rfl rfl
      rfl
    simp only [owes, Bool.toNat_false] at hzero ⊢
    omega
  | stopped => exact h.loop rfl id id rfl rfl rfl

end ConnectingClient

/-! ## What is reported -/

/-- The attempt came to the end `e`. -/
def Reported (tr : List ConnectEvent) (e : Nat) : Prop :=
  e = 0 ∧ .established ∈ tr ∨ 0 < e ∧ .failed e ∈ tr

/-- The text is one for the error `e`. -/
def ConnectInfo.Tells (info : ConnectInfo) (e : Nat) : Prop :=
  if e = 0 then info = .none else info = .socketFailed e ∨ info = .connectFailed e

theorem Reported.mono {tr : List ConnectEvent} {e : Nat} (h : Reported tr e)
    (es : List ConnectEvent) : Reported (tr ++ es) e :=
  h.imp (And.imp_right (List.mem_append_left es)) (And.imp_right (List.mem_append_left es))

theorem tells_infoOf (e : Nat) : (ConnectingClient.infoOf e).Tells e := by
  by_cases he : e = 0 <;> simp [ConnectInfo.Tells, ConnectingClient.infoOf, he]

namespace ConnectingClient

variable {s s' : ConnectingClient} {tr es : List ConnectEvent} {l : ConnectLabel}

/-- While the owner waits, the callback reports what became of the attempt. -/
structure Truthful (s : ConnectingClient) (tr : List ConnectEvent) : Prop where
  fresh : s.place = .idle ∨ s.place = .waiting → s.work = .idle → s.done = false →
    s.state = .notConnected
  report : s.place = .waiting → ∀ e, s.work = .report e ∨ s.work = .reportCode e → Reported tr e
  info : s.place = .waiting → ∀ e, s.work = .reportCode e → s.errorInfo.Tells e
  code : s.place = .waiting → s.work = .callDone →
    Reported tr s.errorCode ∧ s.errorInfo.Tells s.errorCode
  done : s.place = .waiting → s.done = true →
    s.error = s.errorCode ∧ Reported tr s.errorCode ∧ s.errorInfo.Tells s.errorCode
  returned : ∀ r : Int, .returned r ∈ tr → r = -1 ∨ ∃ e : Nat, r = e ∧ Reported tr e
  outcome : ∀ r, s.place = .returned r →
    r = -1 ∨ s.done = true ∧ r = s.errorCode ∧ s.errorInfo.Tells s.errorCode
  alive : .called false ∉ tr

theorem truthful_new (owned onLoop : Bool) : Truthful (.new owned onLoop) [] where
  fresh _ _ _ := rfl
  report hp := by simp [new] at hp
  info hp := by simp [new] at hp
  code hp := by simp [new] at hp
  done hp := by simp [new] at hp
  returned _ hr := by simp at hr
  outcome _ hp := by simp [new] at hp
  alive := by simp

theorem Truthful.returned_append (h : Truthful s tr)
    (hes : ∀ r : Int, .returned r ∈ es → r = -1 ∨ ∃ e : Nat, r = e ∧ Reported tr e) (r : Int)
    (hr : .returned r ∈ tr ++ es) : r = -1 ∨ ∃ e : Nat, r = e ∧ Reported (tr ++ es) e := by
  have hmono : (r = -1 ∨ ∃ e : Nat, r = e ∧ Reported tr e) →
      r = -1 ∨ ∃ e : Nat, r = e ∧ Reported (tr ++ es) e := fun h =>
    h.imp_right fun ⟨e, heq, he⟩ => ⟨e, heq, he.mono es⟩
  rcases List.mem_append.mp hr with hr | hr
  · exact hmono (h.returned r hr)
  · exact hmono (hes r hr)

/-- The owner is at a place of `stop`, or gone. -/
theorem Truthful.leave (h : Truthful s tr) (hidle : s'.place ≠ .idle)
    (hwaiting : s'.place ≠ .waiting) (hreturned : ∀ r, s'.place ≠ .returned r) :
    Truthful s' (tr ++ []) where
  fresh hp := (hp.elim hidle hwaiting).elim
  report hp := absurd hp hwaiting
  info hp := absurd hp hwaiting
  code hp := absurd hp hwaiting
  done hp := absurd hp hwaiting
  returned := h.returned_append (by simp)
  outcome r hp := absurd hp (hreturned r)
  alive := by simpa using h.alive

theorem Truthful.next (h : Truthful s tr) (next : StopNext) :
    Truthful (s.next next).1 (tr ++ (s.next next).2) := by
  cases next with
  | gone =>
    have hp : (s.next .gone).1.place = .gone := rfl
    exact h.leave (by simp [hp]) (by simp [hp]) (by simp [hp])
  | returns =>
    have hp : (s.next .returns).1.place = .returned (-1) := rfl
    refine ⟨by simp [hp], by simp [hp], by simp [hp], by simp [hp], by simp [hp],
      h.returned_append (by simp [ConnectingClient.next]), fun r hp' => Or.inl ?_, ?_⟩
    · simpa [hp] using hp'.symm
    · simpa [ConnectingClient.next] using h.alive

/-- A callback that is to come has not been called. -/
theorem Counted.not_done (h : Counted s tr) (howes : 0 < s.owes) : s.done = false := by
  by_contra hdone
  have hcalls := h.done (by simpa using hdone)
  have hcredit := h.credit
  omega

/-- The loop begins to report. -/
theorem Truthful.begins (h : Truthful s tr) (hbusy : s.done = false) {e : Nat}
    (hplace : s'.place = s.place) (hwork : s'.work = .report e) (hdone : s'.done = s.done)
    (hreport : s.place = .waiting → Reported (tr ++ es) e)
    (hes : ∀ x ∈ es, x = .established ∨ ∃ e, x = .failed e) : Truthful s' (tr ++ es) where
  fresh _ hidle := by simp [hwork] at hidle
  report hp e' he' := by
    obtain rfl : e = e' := by simpa [hwork] using he'
    exact hreport (hplace ▸ hp)
  info _ e' he' := by simp [hwork] at he'
  code _ hcall := by simp [hwork] at hcall
  done _ hdone' := by simp [hdone, hbusy] at hdone'
  returned := h.returned_append fun r hr => by simpa using hes _ hr
  outcome r hp := by
    rcases h.outcome r (hplace ▸ hp) with hr | ⟨hdone', -⟩
    · exact Or.inl hr
    · simp [hbusy] at hdone'
  alive hmem := by
    rcases List.mem_append.mp hmem with hmem | hmem
    · exact h.alive hmem
    · simpa using hes _ hmem

/-- The callback that is under way goes on. -/
theorem Truthful.goOn (h : Truthful s tr) (hbusy : s.done = false) (hplace : s'.place = s.place)
    (hidle : s'.work ≠ .idle) (hdone : s'.done = s.done)
    (hreport : s.place = .waiting → ∀ e, s'.work = .report e ∨ s'.work = .reportCode e →
      Reported tr e)
    (hinfo : s.place = .waiting → ∀ e, s'.work = .reportCode e → s'.errorInfo.Tells e)
    (hcode : s.place = .waiting → s'.work = .callDone →
      Reported tr s'.errorCode ∧ s'.errorInfo.Tells s'.errorCode) : Truthful s' (tr ++ []) := by
  rw [List.append_nil]
  refine ⟨fun _ hw => absurd hw hidle, hplace ▸ hreport, hplace ▸ hinfo, hplace ▸ hcode,
    fun _ hdone' => by simp [hdone, hbusy] at hdone', h.returned, fun r hp => ?_, h.alive⟩
  rcases h.outcome r (hplace ▸ hp) with hr | ⟨hdone', -⟩
  · exact Or.inl hr
  · simp [hbusy] at hdone'

/-- The loop does something that has nothing to do with the callback. -/
theorem Truthful.same (h : Truthful s tr) (hplace : s'.place = s.place) (hwork : s'.work = s.work)
    (hdone : s'.done = s.done) (herror : s'.error = s.error) (hcode : s'.errorCode = s.errorCode)
    (hinfo : s'.errorInfo = s.errorInfo)
    (hstate : s.place = .idle ∨ s.place = .waiting → s.work = .idle → s.done = false →
      s.state = .notConnected → s'.state = .notConnected) : Truthful s' (tr ++ []) := by
  rw [List.append_nil]
  constructor
  · rw [hplace, hwork, hdone]
    exact fun hp hw hd => hstate hp hw hd (h.fresh hp hw hd)
  · rw [hplace, hwork]
    exact h.report
  · rw [hplace, hwork, hinfo]
    exact h.info
  · rw [hplace, hwork, hcode, hinfo]
    exact h.code
  · rw [hplace, hdone, herror, hcode, hinfo]
    exact h.done
  · exact h.returned
  · rw [hplace, hdone, hcode, hinfo]
    exact h.outcome
  · exact h.alive

theorem establishes_reported {state : TcpState} (h : Establishes s state es)
    (hfresh : s.state = .notConnected) : Reported (tr ++ es) 0 := by
  cases h with
  | first => exact Or.inl ⟨rfl, by simp⟩
  | again hstate => exact absurd hfresh hstate

theorem establishes_mem {state : TcpState} (h : Establishes s state es) :
    ∀ x ∈ es, x = .established ∨ ∃ e, x = .failed e := by
  cases h with
  | first => exact fun x hx => Or.inl (List.mem_singleton.mp hx)
  | again => exact fun x hx => absurd hx List.not_mem_nil

theorem step_truthful (hc : Counted s tr) (hq : Queued s) (hsettled : Settled s)
    (h : Truthful s tr) (hs : Steps s l s' es) : Truthful s' (tr ++ es) := by
  cases hs with
  | @connectFails r e info hp he hinfo =>
    have hfailed : Reported (tr ++ [.failed e, .called true]) e := Or.inr ⟨he, by simp⟩
    have htells : info.Tells e := by
      rw [ConnectInfo.Tells, if_neg (Nat.ne_of_gt he)]
      exact hinfo
    have hwork : s.work = .idle := by
      by_contra hwork
      have hzero := hc.idle hp
      have howes := owes_of_work hwork
      omega
    have hwork' : (s.connectFails e info).1.work = .idle := hwork
    have hdone : (s.connectFails e info).1.done = true := rfl
    have hplace : (s.connectFails e info).1.place = .waiting := rfl
    exact ⟨by simp [hdone], by simp [hwork'], by simp [hwork'], by simp [hwork'],
      fun _ _ => ⟨rfl, hfailed, htells⟩, h.returned_append (by simp), by simp [hplace],
      by simpa using h.alive⟩
  | @connectQueues r task hp htask =>
    have hzero := hc.idle hp
    have hwork : s.work = .idle := by
      by_contra hwork
      have howes := owes_of_work hwork
      omega
    have hdone : s.done = false := by
      by_contra hdone
      have hcalls := hc.done (by simpa using hdone)
      omega
    have hwork' : (s.connectQueues task).work = .idle := hwork
    have hdone' : (s.connectQueues task).done = false := hdone
    have hplace : (s.connectQueues task).place = .waiting := rfl
    rw [List.append_nil]
    exact ⟨fun _ _ _ => h.fresh (Or.inl hp) hwork hdone, by simp [hwork'], by simp [hwork'],
      by simp [hwork'], by simp [hdone'], h.returned, by simp [hplace], h.alive⟩
  | wakes hp hdone =>
    obtain ⟨herror, hreported, htells⟩ := h.done hp hdone
    refine ⟨by simp, by simp, by simp, by simp, by simp,
      h.returned_append fun r hr => Or.inr ⟨s.errorCode, ?_, hreported⟩,
      fun r hp' => Or.inr ⟨hdone, ?_, htells⟩, by simpa using h.alive⟩
    · rw [← herror]
      simpa using hr
    · rw [← herror]
      simpa using hp'.symm
  | timesOut | writeInfo | writeCode | exchange | lookOnLoop | lookLooping | lookAway | queue
  | seesDestroyed | joins | drop => exact h.leave (by simp) (by simp) (by simp)
  | stoppedBefore | leaves | joined => exact h.next _
  | detaches =>
    have hflag : Truthful { s with stopFlag := true } tr := by
      have hsame : Truthful { s with stopFlag := true } (tr ++ []) :=
        h.same rfl rfl rfl rfl rfl rfl fun _ _ _ hstate => hstate
      simpa using hsame
    exact hflag.next _
  | lives | stopped => exact h.same rfl rfl rfl rfl rfl rfl fun _ _ _ hstate => hstate
  | establish hturn htasks hes =>
    have hnot := hc.not_done (owes_of_task (by simp) htasks)
    exact h.begins hnot rfl rfl rfl
      (fun hp => establishes_reported hes (h.fresh (Or.inr hp) (work_idle_of_mayTurn hturn).2 hnot))
      (establishes_mem hes)
  | arms => exact h.same rfl rfl rfl rfl rfl rfl fun _ _ _ hstate => hstate
  | late hturn htasks hstate =>
    have hnot := hc.not_done (owes_of_task (by simp) htasks)
    exact h.begins hnot rfl rfl rfl
      (fun hp => absurd (h.fresh (Or.inr hp) (work_idle_of_mayTurn hturn).2 hnot) hstate)
      (fun x hx => Or.inr ⟨_, List.mem_singleton.mp hx⟩)
  | destroys hturn htasks =>
    obtain ⟨-, -, next, hp⟩ := hq.destroys htasks
    exact h.same rfl rfl rfl rfl rfl rfl (by simp [hp])
  | ignores => rwa [List.append_nil]
  | connected hturn harmed hcompleted hes =>
    have hnot := hc.not_done (owes_of_armed harmed)
    exact h.begins hnot rfl rfl rfl
      (fun hp => establishes_reported hes (h.fresh (Or.inr hp) (work_idle_of_mayTurn hturn).2 hnot))
      (establishes_mem hes)
  | refused hturn harmed hcompleted he =>
    exact h.begins (hc.not_done (owes_of_armed harmed)) rfl rfl rfl
      (fun _ => Or.inr ⟨he, by simp⟩) (fun x hx => Or.inr ⟨_, List.mem_singleton.mp hx⟩)
  | unlocked hwork hp =>
    exact h.goOn (hc.not_done (owes_of_work (by simp [hwork]))) rfl (by simp) rfl (by simp)
      (by simp) fun hwaiting => absurd (hp.symm.trans hwaiting) (by simp)
  | @info e hwork hp =>
    refine h.goOn (hc.not_done (owes_of_work (by simp [hwork]))) rfl (by simp) rfl
      (fun hwaiting e' he' => ?_) (fun _ e' he' => ?_) (by simp)
    · obtain rfl : e = e' := by simpa using he'
      exact h.report hwaiting e (Or.inl hwork)
    · obtain rfl : e = e' := by simpa using he'
      exact tells_infoOf e
  | code hwork =>
    exact h.goOn (hc.not_done (owes_of_work (by simp [hwork]))) rfl (by simp) rfl (by simp)
      (by simp) fun hwaiting _ => ⟨h.report hwaiting _ (Or.inr hwork), h.info hwaiting _ hwork⟩
  | done hwork =>
    have hgone : s.place ≠ .gone := by
      intro hp
      simp only [Settled, hp] at hsettled
      exact not_quiet (owes_of_work (by simp [hwork])) (hc.working (by simp [hwork])) hsettled
    have hnot := hc.not_done (owes_of_work (by simp [hwork]))
    refine ⟨by simp [ConnectingClient.callDone], by simp, by simp, by simp,
      fun hp _ => ⟨rfl, ?_, (h.code hp hwork).2⟩, h.returned_append (by simp), fun r hp => ?_, ?_⟩
    · exact (h.code hp hwork).1.mono _
    · rcases h.outcome r hp with hr | ⟨hdone, -⟩
      · exact Or.inl hr
      · exact absurd (hnot.symm.trans hdone) (by simp)
    · simpa [hgone] using h.alive
  | lost hturn hstate =>
    refine h.same rfl rfl rfl rfl rfl rfl fun _ _ _ hfresh => ?_
    exact absurd (hstate.symm.trans hfresh) (by simp)

/-! ## Runs -/

end ConnectingClient

/-- What the owner of a client relies on. -/
structure ConnectLaw (s : ConnectingClient) (tr : List ConnectEvent) : Prop where
  /-- `done()` is never called on a client that is gone. -/
  alive : .called false ∉ tr
  once : calls tr ≤ 1
  /-- What `connectSync` returns is what became of the attempt, or -1. -/
  result : ∀ r : Int, .returned r ∈ tr → r = -1 ∨ ∃ e : Nat, r = e ∧ Reported tr e
  /-- The error that the client keeps is the one that was returned. -/
  error : ∀ r : Int, s.place = .returned r → r ≠ -1 →
    r = s.errorCode ∧ s.errorInfo.Tells s.errorCode
  /-- A client whose time was up is stopped, and its connection closed, or the loop has ended. -/
  timeout : s.place = .returned (-1) →
    s.stopped = true ∧ s.connection = false ∧ s.Closed ∧ s.Quiet

namespace ConnectingClient

/-- Everything that a run keeps. -/
structure Held (s : ConnectingClient) (tr : List ConnectEvent) : Prop where
  counted : Counted s tr
  queued : Queued s
  settled : Settled s
  truthful : Truthful s tr

end ConnectingClient

open ConnectingClient

/-- The time is up while the connection is under way. -/
def timedOutConnect : List ConnectLabel :=
  [.begins, .testFlag, .connect .inProgress, .task, .timesOut, .writeInfo, .writeCode, .exchange,
    .look, .queue, .task, .seesDestroyed, .stopLoop, .drop, .exchange]

/-- The same on a shared loop that has not begun, where `stop` does not wait, and on the thread of
    the loop, where it drops the connection before the task of `connect` has run: the callback
    comes when the client is gone. -/
theorem connect_calls_back_late :
    (∃ ls s tr, run step (.new false false) ls = some (s, tr) ∧ .called false ∈ tr) ∧
      ∃ ls s tr, run step (.new false true) ls = some (s, tr) ∧ .called false ∈ tr :=
  ⟨⟨[.connect .connects, .timesOut, .writeInfo, .writeCode, .exchange, .look, .stopLoop, .drop,
      .exchange, .begins, .testFlag, .task, .report, .report], _, _, rfl, by decide⟩,
    [.begins, .testFlag, .connect .inProgress, .timesOut, .writeInfo, .writeCode, .exchange, .look,
      .stopLoop, .drop, .exchange, .task, .report, .report], _, _, rfl, by decide⟩

end RocketRpc.Net
