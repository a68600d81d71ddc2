import RocketRpc.Mpsc.QueueOrder
import RocketRpc.Mpsc.WriteQueue
import Mathlib.Logic.Relation

/-
  Who drains `m_write_queue`.

  `m_write_queued` is true exactly while somebody is responsible for a drain: a sender that
  is about to queue it, the queued task, or a drain up to the store of `false` (and again
  when it queues the next one). There is one of them at a time (`HeldBy`). While nobody is
  and no drain runs, the queue shows nothing, or a sender that has linked its node has its
  compare-exchange before it (`Covered`). `run_writes` carries both through a run, over the
  invariant of the queue underneath.
-/

namespace RocketRpc.Mpsc

open LinkedChain

variable {ι ν : Type}

/-! ## Who holds `m_write_queued` -/

inductive Holder (ι : Type) where
  | task
  | drain
  | sender (i : ι)

/-- A drain answers for the flag, except between its store of `false` and the
    compare-exchange of its re-check. -/
def DrainPlace.holds : DrainPlace ν → Bool
  | .recheck => false
  | .arming => false
  | _ => true

def Holds (w : WriteQueue ι ν) : Holder ι → Prop
  | .task => 0 < w.tasks
  | .drain => ∃ d, w.drain = some d ∧ d.holds = true
  | .sender i => w.senders i = .queueing

/-- The one who holds the flag, if it is set. -/
structure HeldBy (w : WriteQueue ι ν) (o : Option (Holder ι)) : Prop where
  holder : ∀ a, Holds w a ↔ o = some a
  flag : w.writeQueued = o.isSome
  one : w.tasks ≤ 1

namespace HeldBy

variable {w : WriteQueue ι ν} {o : Option (Holder ι)}

theorem of_holds (h : HeldBy w o) {a : Holder ι} (ha : Holds w a) : o = some a :=
  (h.holder a).mp ha

theorem none_of_flag (h : HeldBy w o) (hf : w.writeQueued = false) : o = none := by
  cases o with
  | none => rfl
  | some a => exact absurd (h.flag.symm.trans hf) (by simp)

/-- What the flag does not depend on. -/
theorem congr {w' : WriteQueue ι ν} (h : HeldBy w o) (hq : w'.writeQueued = w.writeQueued)
    (ht : w'.tasks = w.tasks) (hs : ∀ i, w'.senders i = .queueing ↔ w.senders i = .queueing)
    (hd : Holds w' .drain ↔ Holds w .drain) : HeldBy w' o where
  holder a := by
    rw [← h.holder a]
    cases a with
    | task => simp [Holds, ht]
    | drain => exact hd
    | sender i => exact hs i
  flag := hq.trans h.flag
  one := ht ▸ h.one

end HeldBy

theorem HeldBy.setShared {w : WriteQueue ι ν} {o : Option (Holder ι)} (h : HeldBy w o)
    (s : Shared ι ν) : HeldBy (w.setShared s) o :=
  h.congr rfl rfl (fun _ => Iff.rfl) Iff.rfl

/-- The drain goes on and answers for the flag as before. -/
theorem HeldBy.setDrain {w : WriteQueue ι ν} {o : Option (Holder ι)} (h : HeldBy w o)
    {d : DrainPlace ν} (hd : w.drain = some d) {place : Option (DrainPlace ν)}
    (hplace : d.holds = true ↔ ∃ d', place = some d' ∧ d'.holds = true) :
    HeldBy (w.setDrain place) o :=
  h.congr rfl rfl (fun _ => Iff.rfl) (by simp [Holds, WriteQueue.setDrain, hd, hplace])

/-- The loop takes the drain task. -/
theorem HeldBy.take {w : WriteQueue ι ν} {o : Option (Holder ι)} (h : HeldBy w o)
    (ht : 0 < w.tasks) :
    HeldBy (({ w with tasks := w.tasks - 1 } : WriteQueue ι ν).setDrain (some (.batch 0 0 [])))
      (some .drain) := by
  obtain rfl := h.of_holds (a := .task) ht
  have hone := h.one
  refine ⟨fun a => ?_, h.flag, by simp [WriteQueue.setDrain]; omega⟩
  cases a with
  | task => simp [Holds, WriteQueue.setDrain]; omega
  | drain => simp [Holds, WriteQueue.setDrain, DrainPlace.holds]
  | sender i => simpa [Holds, WriteQueue.setDrain] using h.holder (.sender i)

/-- `m_write_queued.store(false)`: nobody answers for the flag now. -/
theorem HeldBy.clear {w : WriteQueue ι ν} {o : Option (Holder ι)} (h : HeldBy w o)
    (hd : w.drain = some .clear) :
    HeldBy (({ w with writeQueued := false } : WriteQueue ι ν).setDrain (some .recheck)) none := by
  obtain rfl := h.of_holds (a := .drain) ⟨.clear, hd, rfl⟩
  refine ⟨fun a => ?_, rfl, h.one⟩
  cases a with
  | task => simpa [Holds, WriteQueue.setDrain] using h.holder .task
  | drain => simp [Holds, WriteQueue.setDrain, DrainPlace.holds]
  | sender i => simpa [Holds, WriteQueue.setDrain] using h.holder (.sender i)

/-- The re-check of a drain wins the compare-exchange. -/
theorem HeldBy.rearm {w : WriteQueue ι ν} {o : Option (Holder ι)} (h : HeldBy w o)
    (hf : w.writeQueued = false) :
    HeldBy (({ w with writeQueued := true } : WriteQueue ι ν).setDrain (some .queueing))
      (some .drain) := by
  obtain rfl := h.none_of_flag hf
  refine ⟨fun a => ?_, rfl, h.one⟩
  cases a with
  | task => simpa [Holds, WriteQueue.setDrain] using h.holder .task
  | drain => simp [Holds, WriteQueue.setDrain, DrainPlace.holds]
  | sender i => simpa [Holds, WriteQueue.setDrain] using h.holder (.sender i)

/-- The drain queues its successor and ends. -/
theorem HeldBy.requeue {w : WriteQueue ι ν} {o : Option (Holder ι)} (h : HeldBy w o)
    (hd : w.drain = some .queueing) : HeldBy (w.queueDrain.setDrain none) (some .task) := by
  obtain rfl := h.of_holds (a := .drain) ⟨.queueing, hd, rfl⟩
  have ht : ¬ 0 < w.tasks := fun ht => by simpa using (h.holder .task).mp ht
  refine ⟨fun a => ?_, h.flag, by simp [WriteQueue.setDrain, WriteQueue.queueDrain]; omega⟩
  cases a with
  | task => simp [Holds, WriteQueue.setDrain, WriteQueue.queueDrain]
  | drain => simp [Holds, WriteQueue.setDrain]
  | sender i =>
    simpa [Holds, WriteQueue.setDrain, WriteQueue.queueDrain] using h.holder (.sender i)

variable [DecidableEq ι]

theorem HeldBy.setSender {w : WriteQueue ι ν} {o : Option (Holder ι)} (h : HeldBy w o) {i : ι}
    {place : SendPlace} (hi : w.senders i ≠ .queueing) (hplace : place ≠ .queueing) :
    HeldBy (w.setSender i place) o := by
  refine h.congr rfl rfl (fun j => ?_) Iff.rfl
  by_cases hj : j = i
  · subst hj
    simp [WriteQueue.setSender, hi, hplace]
  · simp [WriteQueue.setSender, hj]

/-- A sender wins the compare-exchange. -/
theorem HeldBy.win {w : WriteQueue ι ν} {o : Option (Holder ι)} (h : HeldBy w o) {i : ι}
    (hf : w.writeQueued = false) :
    HeldBy (({ w with writeQueued := true } : WriteQueue ι ν).setSender i .queueing)
      (some (.sender i)) := by
  obtain rfl := h.none_of_flag hf
  refine ⟨fun a => ?_, rfl, h.one⟩
  cases a with
  | task => simpa [Holds, WriteQueue.setSender] using h.holder .task
  | drain => simpa [Holds, WriteQueue.setSender] using h.holder .drain
  | sender j =>
    by_cases hj : j = i
    · subst hj
      simp [Holds, WriteQueue.setSender]
    · simpa [Holds, WriteQueue.setSender, hj, Ne.symm hj] using h.holder (.sender j)

/-- The sender that has won queues the drain. -/
theorem HeldBy.queue {w : WriteQueue ι ν} {o : Option (Holder ι)} (h : HeldBy w o) {i : ι}
    (hi : w.senders i = .queueing) : HeldBy (w.queueDrain.setSender i .outside) (some .task) := by
  obtain rfl := h.of_holds (a := .sender i) hi
  have ht : ¬ 0 < w.tasks := fun ht => by simpa using (h.holder .task).mp ht
  refine ⟨fun a => ?_, h.flag, by simp [WriteQueue.setSender, WriteQueue.queueDrain]; omega⟩
  cases a with
  | task => simp [Holds, WriteQueue.setSender, WriteQueue.queueDrain]
  | drain => simpa [Holds, WriteQueue.setSender, WriteQueue.queueDrain] using h.holder .drain
  | sender j =>
    by_cases hj : j = i
    · subst hj
      simp [Holds, WriteQueue.setSender]
    · simpa [Holds, WriteQueue.setSender, WriteQueue.queueDrain, hj, Ne.symm hj]
        using h.holder (.sender j)

/-! ## What nobody answers for -/

/-- Nothing can be popped from the queue. -/
def ShowsNothing (q : MpscQueue ν) : Prop := q.head = .stub ∧ q.next .stub = none

omit [DecidableEq ι] in
theorem showsNothing_of_empty {q : MpscQueue ν} (h : q.empty = true) : ShowsNothing q := by
  unfold MpscQueue.empty at h
  cases hhead : q.head with
  | stub =>
    rw [hhead] at h
    exact ⟨hhead, Option.isNone_iff_eq_none.mp h⟩
  | typed n => simp [hhead] at h

structure Covered (w : WriteQueue ι ν) : Prop where
  pushing : ∀ i p, w.shared.producers i = some p → w.senders i = .pushing
  popping : ∀ c, w.shared.consumer = some c → ∃ r b m, w.drain = some (.popping r b m)
  shown : w.writeQueued = false → w.drain = none →
    ShowsNothing w.shared.queue ∨ ∃ i, w.senders i = .arming

namespace Covered

variable {w : WriteQueue ι ν}

omit [DecidableEq ι] in
theorem producers_none (h : Covered w) {i : ι} (hi : w.senders i ≠ .pushing) :
    w.shared.producers i = none := by
  cases hp : w.shared.producers i with
  | none => rfl
  | some p => exact absurd (h.pushing i p hp) hi

omit [DecidableEq ι] in
theorem consumer_none (h : Covered w) (hd : ∀ r b m, w.drain ≠ some (.popping r b m)) :
    w.shared.consumer = none := by
  cases hc : w.shared.consumer with
  | none => rfl
  | some c =>
    obtain ⟨r, b, m, hpop⟩ := h.popping c hc
    exact absurd hpop (hd r b m)

/-- A sender outside `push` goes on; if it was about to arm, somebody answers for the flag. -/
theorem setSender (h : Covered w) {i : ι} (place : SendPlace) (hi : w.senders i ≠ .pushing)
    (harm : w.senders i = .arming → w.writeQueued = true) : Covered (w.setSender i place) where
  pushing j p hj := by
    by_cases hji : j = i
    · subst hji
      exact absurd (h.pushing j p hj) hi
    · simpa [WriteQueue.setSender, hji] using h.pushing j p hj
  popping := h.popping
  shown hf hd := by
    refine (h.shown hf hd).imp_right fun ⟨j, hj⟩ => ⟨j, ?_⟩
    have hji : j ≠ i := by
      rintro rfl
      exact absurd ((harm hj).symm.trans hf) (by simp)
    simpa [WriteQueue.setSender, hji] using hj

omit [DecidableEq ι] in
/-- Somebody sets the flag. -/
theorem setFlag (h : Covered w) : Covered { w with writeQueued := true } where
  pushing := h.pushing
  popping := h.popping
  shown hf _ := by simp at hf

omit [DecidableEq ι] in
/-- The drain goes on outside `pop`. -/
theorem setDrain (h : Covered w) {place : Option (DrainPlace ν)}
    (hd : ∀ r b m, w.drain ≠ some (.popping r b m))
    (hend : place = none → w.writeQueued = true ∨ ShowsNothing w.shared.queue) :
    Covered (w.setDrain place) where
  pushing := h.pushing
  popping c hc := by
    rw [WriteQueue.setDrain, h.consumer_none hd] at hc
    simp at hc
  shown hf hplace := by
    rcases hend hplace with hset | hshow
    · exact absurd (hset.symm.trans hf) (by simp)
    · exact Or.inl hshow

/-- A sender that is not turned away calls `push`. -/
theorem call (h : Covered w) {i : ι} {n : ν} (hi : w.senders i = .check) :
    Covered ((w.setShared (({ w.shared with busy := n :: w.shared.busy } : Shared ι ν).setProducer
      i (some (.reset (.typed n))))).setSender i .pushing) where
  pushing j p hj := by
    by_cases hji : j = i
    · subst hji
      simp [WriteQueue.setSender]
    · simp only [WriteQueue.setSender, WriteQueue.setShared, Shared.setProducer, ne_eq, hji,
        not_false_eq_true, Function.update_of_ne] at hj ⊢
      exact h.pushing j p hj
  popping := h.popping
  shown hf hd := by
    rcases h.shown hf hd with hshow | ⟨j, hj⟩
    · exact Or.inl hshow
    · have hji : j ≠ i := by
        rintro rfl
        simp [hi] at hj
      exact Or.inr ⟨j, (Function.update_of_ne hji _ _).trans hj⟩

/-- What `push` does with its last operation aside, the link of the stub stays missing. -/
theorem showsNothing_push [DecidableEq ν] {q : MpscQueue ν} {p : Push ν} (h : ShowsNothing q)
    (hp : (q.push p).2 ≠ none) : ShowsNothing (q.push p).1 := by
  cases p with
  | reset n =>
    refine ⟨h.1, ?_⟩
    by_cases hn : MpscNode.stub = n
    · subst hn
      simp [MpscQueue.push]
    · simpa [MpscQueue.push, hn] using h.2
  | exchange n => exact h
  | link n prev => simp [MpscQueue.push] at hp

/-- An operation of `push`; after the last one the sender is to arm the drain. -/
theorem produce [DecidableEq ν] (h : Covered w) {i : ι} {p : Push ν}
    (hi : w.shared.producers i = some p) :
    Covered (if (w.shared.produce i p).1.producers i = none then
      (w.setShared (w.shared.produce i p).1).setSender i .arming
      else w.setShared (w.shared.produce i p).1) := by
  have hsend := h.pushing i p hi
  have hother : ∀ j, j ≠ i → (w.shared.produce i p).1.producers j = w.shared.producers j := by
    intro j hj
    simp [Shared.produce, Shared.setProducer, hj]
  split_ifs with hend
  · refine ⟨fun j p' hj => ?_, h.popping, fun _ _ => Or.inr ⟨i, by simp [WriteQueue.setSender]⟩⟩
    by_cases hji : j = i
    · subst hji
      exact absurd (hend.symm.trans hj) (by simp)
    · simp only [WriteQueue.setSender, WriteQueue.setShared, ne_eq, hji, not_false_eq_true,
        Function.update_of_ne]
      exact h.pushing j p' ((hother j hji).symm.trans hj)
  · refine ⟨fun j p' hj => ?_, h.popping, fun hf hd => (h.shown hf hd).imp_left fun hs => ?_⟩
    · by_cases hji : j = i
      · subst hji
        exact hsend
      · exact h.pushing j p' ((hother j hji).symm.trans hj)
    · refine showsNothing_push hs ?_
      simpa [Shared.produce, Shared.setProducer] using hend

end Covered

/-! ## Runs -/

variable [DecidableEq ν]

/-- The invariant of the senders, the queue and the drain. -/
def Writes (w : WriteQueue ι ν) (tr : List (WriteEvent ν)) : Prop :=
  (∃ l, Keeps w.shared (queueEvents tr) l) ∧ (∃ o, HeldBy w o) ∧ Covered w

theorem queueStep_eq {w w' : WriteQueue ι ν} {l : Label ι ν} {es : List (WriteEvent ν)}
    (h : w.queueStep l = some (w', es)) :
    ∃ s qes, w.shared.step l = some (s, qes) ∧ w' = w.setShared s ∧ es = qes.map .queue := by
  obtain ⟨⟨s, qes⟩, hs, heq⟩ := Option.map_eq_some_iff.mp h
  obtain ⟨rfl, rfl⟩ := Prod.mk.inj heq
  exact ⟨s, qes, hs, rfl, rfl⟩

omit [DecidableEq ι] in
theorem consume_producers (s : Shared ι ν) (c : Pop ν) :
    (s.consume c).1.producers = s.producers := by
  cases hpop : (s.queue.pop c).2 with
  | goes c' => rw [consume_goes hpop, Shared.setConsumer]
  | returns result => rw [consume_returns hpop, Shared.setConsumer]

omit [DecidableEq ι] in
/-- As long as `pop` has not returned it shows nothing. -/
theorem consume_going {s s' : Shared ι ν} {c c' : Pop ν} {es : List (Event ν)}
    (h : s.consume c = (s', es)) (hc : s'.consumer = some c') : es = [] := by
  cases hpop : (s.queue.pop c).2 with
  | goes place => exact (Prod.mk.inj ((consume_goes hpop).symm.trans h)).2.symm
  | returns result =>
    obtain ⟨rfl, -⟩ := Prod.mk.inj ((consume_returns hpop).symm.trans h)
    simp [Shared.setConsumer] at hc

section Steps

variable {w w' : WriteQueue ι ν} {tr es : List (WriteEvent ν)} {o : Option (Holder ι)}
  {l : List (MpscNode ν)} (hk : Keeps w.shared (queueEvents tr) l) (hh : HeldBy w o)
  (hc : Covered w)

include hk hh hc

/-- A foreign thread goes on. -/
theorem goOn_writes {i : ι} (hs : w.goOn i (w.senders i) = some (w', es)) :
    Writes w' (tr ++ es) := by
  have hk' : Keeps w.shared (queueEvents (tr ++ [])) l := by rwa [List.append_nil]
  cases hi : w.senders i with
  | outside => simp [hi, WriteQueue.goOn] at hs
  | check => simp [hi, WriteQueue.goOn] at hs
  | pushing =>
    rw [hi] at hs
    obtain ⟨⟨w₁, es₁⟩, hq, heq⟩ := Option.map_eq_some_iff.mp hs
    obtain ⟨rfl, rfl⟩ := Prod.mk.inj heq
    obtain ⟨s, qes, hstep, rfl, rfl⟩ := queueStep_eq hq
    obtain ⟨p, hp, heq⟩ := Option.map_eq_some_iff.mp hstep
    have hcov := hc.produce hp
    rw [heq] at hcov
    refine ⟨?_, ?_, hcov⟩
    · obtain ⟨l', hl'⟩ := step_keeps hk hstep
      refine ⟨l', ?_⟩
      rw [queueEvents_append, queueEvents_map]
      split_ifs <;> exact hl'
    · refine ⟨o, ?_⟩
      split_ifs
      · exact (hh.setShared s).setSender (by simp [WriteQueue.setShared, hi]) (by simp)
      · exact hh.setShared s
  | arming =>
    rw [hi] at hs
    by_cases hf : w.writeQueued = true
    · obtain ⟨rfl, rfl⟩ : w.setSender i .outside = w' ∧ [] = es := by
        simpa [WriteQueue.goOn, hf] using hs
      exact ⟨⟨l, hk'⟩, ⟨o, hh.setSender (by simp [hi]) (by simp)⟩,
        hc.setSender .outside (by simp [hi]) (fun _ => hf)⟩
    · rw [Bool.not_eq_true] at hf
      obtain ⟨rfl, rfl⟩ : ({ w with writeQueued := true } : WriteQueue ι ν).setSender i .queueing =
          w' ∧ [] = es := by
        simpa [WriteQueue.goOn, hf] using hs
      exact ⟨⟨l, hk'⟩, ⟨_, hh.win hf⟩,
        hc.setFlag.setSender .queueing (by simp [hi]) (fun _ => rfl)⟩
  | queueing =>
    rw [hi] at hs
    obtain ⟨rfl, rfl⟩ := Prod.mk.inj (Option.some.inj hs)
    exact ⟨⟨l, hk'⟩, ⟨_, hh.queue hi⟩,
      ⟨(hc.setSender .outside (by simp [hi]) (by simp [hi])).pushing, hc.popping,
        (hc.setSender .outside (by simp [hi]) (by simp [hi])).shown⟩⟩

/-- The drain calls `pop`. -/
theorem pop_writes {r b : Nat} {m : List ν} (hd : w.drain = some (.batch r b m))
    (hq : w.queueStep .pop = some (w', es)) :
    Writes (w'.setDrain (some (.popping r b m))) (tr ++ es) := by
  obtain ⟨s, qes, hstep, rfl, rfl⟩ := queueStep_eq hq
  obtain ⟨l', hl'⟩ := step_keeps hk hstep
  obtain ⟨-, heq⟩ := Option.ite_none_right_eq_some.mp hstep
  have hprod : s.producers = w.shared.producers := by
    rw [← (Prod.mk.inj (Option.some.inj heq)).1]
  refine ⟨⟨l', ?_⟩, ⟨o, (hh.setShared s).setDrain hd (by simp [DrainPlace.holds])⟩,
    fun i p hi => hc.pushing i p (hprod ▸ hi), fun c _ => ⟨r, b, m, rfl⟩, fun _ hd' => ?_⟩
  · rw [queueEvents_append, queueEvents_map]
    exact hl'
  · simp [WriteQueue.setDrain] at hd'

/-- The drain is in `pop`. -/
theorem popping_writes {r b : Nat} {m : List ν} (hd : w.drain = some (.popping r b m))
    (hq : w.queueStep .consume = some (w', es)) :
    Writes (w'.setDrain (some (WriteQueue.afterPop r b m (WriteQueue.popResult es))))
      (tr ++ es) := by
  obtain ⟨s, qes, hstep, rfl, rfl⟩ := queueStep_eq hq
  obtain ⟨l', hl'⟩ := step_keeps hk hstep
  obtain ⟨c, -, heq⟩ := Option.map_eq_some_iff.mp hstep
  have hprod : s.producers = w.shared.producers :=
    (congrArg (fun r => r.1.producers) heq).symm.trans (consume_producers w.shared c)
  refine ⟨⟨l', ?_⟩, ⟨o, ?_⟩, fun i p hi => hc.pushing i p ?_, fun c' hc' => ?_, fun _ hd' => ?_⟩
  · rw [queueEvents_append, queueEvents_map]
    exact hl'
  · refine (hh.setShared s).setDrain hd ?_
    simp only [DrainPlace.holds, Option.some.injEq, exists_eq_left', true_iff]
    cases WriteQueue.popResult (qes.map WriteEvent.queue) with
    | none => rfl
    | some result =>
      rcases result with _ | (_ | n) <;> rfl
  · rw [← hprod]
    exact hi
  · -- `pop` has not returned
    obtain rfl : qes = [] := consume_going heq hc'
    exact ⟨r, b, m, rfl⟩
  · simp [WriteQueue.setDrain] at hd'

/-- The loop goes on in a drain. -/
theorem drainStep_writes {d : DrainPlace ν} (hd : w.drain = some d)
    (hs : w.drainStep d = some (w', es)) : Writes w' (tr ++ es) := by
  have hk' : Keeps w.shared (queueEvents (tr ++ [])) l := by rwa [List.append_nil]
  have hout : (∀ r b m, d ≠ .popping r b m) → ∀ r b m, w.drain ≠ some (.popping r b m) :=
    fun h r b m hd' => h r b m (Option.some.inj (hd.symm.trans hd'))
  cases d with
  | batch r b m =>
    simp only [WriteQueue.drainStep] at hs
    split_ifs at hs with hb
    · obtain ⟨⟨w₁, es₁⟩, hq, heq⟩ := Option.map_eq_some_iff.mp hs
      obtain ⟨rfl, rfl⟩ := Prod.mk.inj heq
      exact pop_writes hk hh hc hd hq
    · obtain ⟨rfl, rfl⟩ := Prod.mk.inj (Option.some.inj hs)
      exact ⟨⟨l, hk'⟩, ⟨o, hh.setDrain hd (by simp [DrainPlace.holds])⟩,
        hc.setDrain (hout (by simp)) (by simp)⟩
  | popping r b m =>
    obtain ⟨⟨w₁, es₁⟩, hq, heq⟩ := Option.map_eq_some_iff.mp hs
    obtain ⟨rfl, rfl⟩ := Prod.mk.inj heq
    exact popping_writes hk hh hc hd hq
  | test r b m n =>
    obtain ⟨rfl, rfl⟩ := Prod.mk.inj (Option.some.inj hs)
    exact ⟨⟨l, hk'⟩, ⟨o, hh.setDrain hd (by simp [DrainPlace.holds])⟩,
      hc.setDrain (hout (by simp)) (by simp)⟩
  | send r m =>
    obtain ⟨rfl, rfl⟩ := Prod.mk.inj (Option.some.inj hs)
    refine ⟨⟨l, ?_⟩, ⟨o, hh.setDrain hd ?_⟩, hc.setDrain (hout (by simp)) (by simp)⟩
    · have hev : queueEvents (tr ++ if m.isEmpty then [] else [WriteEvent.batch m]) =
          queueEvents tr := by
        split_ifs <;> simp [queueEvents]
      rw [hev]
      exact hk
    · split_ifs <;> simp [DrainPlace.holds]
  | clear =>
    obtain ⟨rfl, rfl⟩ := Prod.mk.inj (Option.some.inj hs)
    refine ⟨⟨l, hk'⟩, ⟨none, hh.clear hd⟩, hc.pushing, fun c hcons => ?_, fun _ hd' => ?_⟩
    · exact absurd ((hc.consumer_none (hout (by simp))).symm.trans hcons) (by simp)
    · simp [WriteQueue.setDrain] at hd'
  | recheck =>
    obtain ⟨rfl, rfl⟩ := Prod.mk.inj (Option.some.inj hs)
    refine ⟨⟨l, hk'⟩, ⟨o, hh.setDrain hd ?_⟩, hc.setDrain (hout (by simp)) fun hend => Or.inr ?_⟩
    · split_ifs <;> simp [DrainPlace.holds]
    · -- `empty()` has just seen that there is nothing
      rw [ite_eq_left_iff] at hend
      have hempty : w.shared.queue.empty = true := by
        by_contra hne
        simp [hne] at hend
      exact showsNothing_of_empty hempty
  | arming =>
    by_cases hf : w.writeQueued = true
    · obtain ⟨rfl, rfl⟩ : w.setDrain none = w' ∧ [] = es := by
        simpa [WriteQueue.drainStep, hf] using hs
      exact ⟨⟨l, hk'⟩, ⟨o, hh.setDrain hd (by simp [DrainPlace.holds])⟩,
        hc.setDrain (hout (by simp)) fun _ => Or.inl hf⟩
    · rw [Bool.not_eq_true] at hf
      obtain ⟨rfl, rfl⟩ : ({ w with writeQueued := true } : WriteQueue ι ν).setDrain
          (some .queueing) = w' ∧ [] = es := by
        simpa [WriteQueue.drainStep, hf] using hs
      exact ⟨⟨l, hk'⟩, ⟨_, hh.rearm hf⟩, hc.setFlag.setDrain (hout (by simp)) (by simp)⟩
  | queueing =>
    obtain ⟨rfl, rfl⟩ := Prod.mk.inj (Option.some.inj hs)
    have hf : w.writeQueued = true := by
      rw [hh.flag, hh.of_holds (a := .drain) ⟨.queueing, hd, rfl⟩]
      rfl
    have hcov : Covered (w.setDrain none) := hc.setDrain (hout (by simp)) fun _ => Or.inl hf
    exact ⟨⟨l, hk'⟩, ⟨_, hh.requeue hd⟩, hcov.pushing, hcov.popping, hcov.shown⟩

/-- One step of any thread. -/
theorem step_writes {lb : WriteLabel ι ν} (hs : w.step lb = some (w', es)) :
    Writes w' (tr ++ es) := by
  have hk' : Keeps w.shared (queueEvents (tr ++ [])) l := by rwa [List.append_nil]
  cases lb with
  | call i =>
    obtain ⟨hi, heq⟩ := Option.ite_none_right_eq_some.mp hs
    obtain ⟨rfl, rfl⟩ := Prod.mk.inj (Option.some.inj heq)
    exact ⟨⟨l, hk'⟩, ⟨o, hh.setSender (by simp [hi]) (by simp)⟩,
      hc.setSender .check (by simp [hi]) (by simp [hi])⟩
  | load i n =>
    obtain ⟨hi, hload⟩ := Option.ite_none_right_eq_some.mp hs
    split_ifs at hload with hrej
    · obtain ⟨rfl, rfl⟩ := Prod.mk.inj (Option.some.inj hload)
      exact ⟨⟨l, hk'⟩, ⟨o, hh.setSender (by simp [hi]) (by simp)⟩,
        hc.setSender .outside (by simp [hi]) (by simp [hi])⟩
    · obtain ⟨⟨w₁, es₁⟩, hq, heq⟩ := Option.map_eq_some_iff.mp hload
      obtain ⟨rfl, rfl⟩ := Prod.mk.inj heq
      obtain ⟨s, qes, hstep, rfl, rfl⟩ := queueStep_eq hq
      obtain ⟨l', hl'⟩ := step_keeps hk hstep
      obtain ⟨-, heq⟩ := Option.ite_none_right_eq_some.mp hstep
      obtain ⟨rfl, rfl⟩ := Prod.mk.inj (Option.some.inj heq)
      refine ⟨⟨l', ?_⟩, ⟨o, ?_⟩, hc.call hi⟩
      · rw [queueEvents_append, queueEvents_map]
        exact hl'
      · exact (hh.setShared _).setSender (by simp [WriteQueue.setShared, hi]) (by simp)
  | go i => exact goOn_writes hk hh hc hs
  | task =>
    obtain ⟨⟨hd, ht⟩, heq⟩ := Option.ite_none_right_eq_some.mp hs
    obtain ⟨rfl, rfl⟩ := Prod.mk.inj (Option.some.inj heq)
    refine ⟨⟨l, hk'⟩, ⟨_, hh.take ht⟩, hc.pushing, fun c hcons => ?_, fun _ hd' => ?_⟩
    · exact absurd ((hc.consumer_none (by simp [hd])).symm.trans hcons) (by simp)
    · simp [WriteQueue.setDrain] at hd'
  | drain =>
    obtain ⟨d, hd, hs⟩ := Option.bind_eq_some_iff.mp hs
    exact drainStep_writes hk hh hc hd hs
  | state s =>
    obtain ⟨rfl, rfl⟩ := Prod.mk.inj (Option.some.inj hs)
    exact ⟨⟨l, hk'⟩, ⟨o, hh.congr rfl rfl (fun _ => Iff.rfl) Iff.rfl⟩, hc.pushing, hc.popping,
      hc.shown⟩

end Steps

theorem run_writes {w : WriteQueue ι ν} {ls : List (WriteLabel ι ν)} {es : List (WriteEvent ν)}
    (hrun : Machine.run WriteQueue.step WriteQueue.new ls = some (w, es)) : Writes w es := by
  have h0 : Writes (WriteQueue.new : WriteQueue ι ν) [] := by
    refine ⟨⟨[.stub], inv_new, rfl⟩, ⟨none, fun a => ?_, rfl, Nat.zero_le 1⟩, fun i p hi => ?_,
      fun c hcons => ?_, fun _ _ => Or.inl ⟨rfl, rfl⟩⟩
    · cases a <;> simp [Holds, WriteQueue.new]
    · simp [WriteQueue.new, Shared.new] at hi
    · simp [WriteQueue.new, Shared.new] at hcons
  have h := Machine.run_induction Writes (fun w tr lb w' es h hs => by
    obtain ⟨⟨l, hk⟩, ⟨o, hh⟩, hc⟩ := h
    exact step_writes hk hh hc hs) [] h0 hrun
  simpa using h

/-! ## Main theorem -/

/-- A node that is reached from `head_` along the stored links. -/
def Reached (q : MpscQueue ν) (a : MpscNode ν) : Prop :=
  Relation.ReflTransGen (fun a b => q.next a = some b) q.head a

omit [DecidableEq ι] [DecidableEq ν] in
theorem ShowsNothing.reached {q : MpscQueue ν} {a : MpscNode ν} (h : ShowsNothing q)
    (ha : Reached q a) : a = .stub := by
  rcases Relation.ReflTransGen.cases_head ha with rfl | ⟨b, hb, -⟩
  · exact h.1
  · rw [h.1, h.2] at hb
    exact absurd hb (by simp)

/-- While a message can be reached in `m_write_queue`, somebody is to drain it: a drain is
    queued or runs, or a sender has its compare-exchange or its `queueInLoop` before it. No
    two drains are queued. So when all senders are through and no drain is left, everything
    that was pushed has been popped. -/
theorem drain_armed {w : WriteQueue ι ν} {ls : List (WriteLabel ι ν)} {es : List (WriteEvent ν)}
    (hrun : Machine.run WriteQueue.step WriteQueue.new ls = some (w, es)) :
    ((∃ n, Reached w.shared.queue (.typed n)) → 0 < w.tasks ∨ w.drain ≠ none ∨
        ∃ i, w.senders i = .arming ∨ w.senders i = .queueing) ∧
      w.tasks ≤ 1 ∧
      ((∀ i, w.senders i = .outside) → w.drain = none → w.tasks = 0 →
        returned (queueEvents es) = (exchanged (queueEvents es)).map .typed) := by
  obtain ⟨⟨l, hinv, hist⟩, ⟨o, hh⟩, hc⟩ := run_writes hrun
  refine ⟨fun ⟨n, hn⟩ => ?_, hh.one, fun hout hd ht => ?_⟩
  · cases hf : w.writeQueued with
    | true =>
      cases o with
      | none => exact absurd (hh.flag.symm.trans hf) (by simp)
      | some a =>
        have ha : Holds w a := (hh.holder a).mpr rfl
        cases a with
        | task => exact Or.inl ha
        | drain =>
          obtain ⟨d, hd, -⟩ := ha
          exact Or.inr (Or.inl (by simp [hd]))
        | sender i => exact Or.inr (Or.inr ⟨i, Or.inr ha⟩)
    | false =>
      by_cases hd : w.drain = none
      · rcases hc.shown hf hd with hshow | ⟨i, hi⟩
        · exact absurd (hshow.reached hn) (by simp)
        · exact Or.inr (Or.inr ⟨i, Or.inl hi⟩)
      · exact Or.inr (Or.inl hd)
  · have hno : ∀ a, ¬ Holds w a := by
      intro a ha
      cases a with
      | task => simp [Holds, ht] at ha
      | drain => simp [Holds, hd] at ha
      | sender i => simp [Holds, hout i] at ha
    have hf : w.writeQueued = false := by
      cases o with
      | none => exact hh.flag
      | some a => exact absurd ((hh.holder a).mpr rfl) (hno a)
    have hquiet : ∀ i, w.shared.producers i = none := fun i =>
      hc.producers_none (by simp [hout i])
    have hnone : w.shared.pushing none = none := by
      simp [Shared.pushing, hc.consumer_none (by simp [hd])]
    rcases hc.shown hf hd with hshow | ⟨i, hi⟩
    · rw [eq_singleton_of_quiet hinv hquiet hnone (by rw [hshow.1, hshow.2]), hshow.1] at hist
      simpa [kept] using hist
    · exact absurd (hi.symm.trans (hout i)) (by simp)

/-- A sender pushes, arms and queues; the drain takes its message and ends. -/
def oneSender : List (WriteLabel Unit Nat) :=
  [.state .connected, .call (), .load () 7, .go (), .go (), .go (), .go (), .go (), .task] ++
    List.replicate 26 .drain

theorem drain_armed_one_sender : ∃ (w : WriteQueue Unit Nat) (es : List (WriteEvent Nat)),
    Machine.run WriteQueue.step WriteQueue.new oneSender = some (w, es) ∧
      returned (queueEvents es) = (exchanged (queueEvents es)).map .typed :=
  ⟨_, _, rfl, (@drain_armed Unit Nat _ _ _ oneSender _ rfl).2.2 (fun _ => rfl) rfl rfl⟩

/-- Between the compare-exchange that a sender wins and its `queueInLoop` its message can be
    reached, and neither a drain nor a compare-exchange of a sender is to come. -/
theorem drain_armed_gap : ∃ (w : WriteQueue Unit Nat) (es : List (WriteEvent Nat)),
    Machine.run WriteQueue.step WriteQueue.new
      [.call (), .load () 7, .go (), .go (), .go (), .go ()] = some (w, es) ∧
    Reached w.shared.queue (.typed 7) ∧
    ¬ (0 < w.tasks ∨ w.drain ≠ none ∨
      ∃ i, w.senders i = .arming ∨ w.senders i = .pushing) := by
  refine ⟨_, _, rfl, Relation.ReflTransGen.single rfl, fun h => ?_⟩
  rcases h with h | h | ⟨⟨⟩, h | h⟩
  · exact absurd h (Nat.lt_irrefl 0)
  · exact h rfl
  · exact SendPlace.noConfusion h
  · exact SendPlace.noConfusion h

end RocketRpc.Mpsc
