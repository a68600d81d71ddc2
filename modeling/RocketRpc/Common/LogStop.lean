import RocketRpc.Common.LogOrder

/-
  What `Logger::stop` leaves in the file.

  Every published entry is in a queue, in the batch of the format thread or formatted. An
  entry that was published before `stop` is owed: the final drain takes it out of its queue,
  the last hand-over gives its line, and the write thread writes it, if it has not exited by
  then (it tests `m_running` and `m_write_ready` on its own) and if that swap does not push
  another buffer back.
-/

namespace RocketRpc.Common

open RocketRpc.Tcp Machine

variable {date : Nat → Bytes} {s s' : Logger} {l : LogLabel}
  {h h' : Handoff (LogEntry × Bytes)} {xs : List (LogEntry × Bytes)} {es tr : List LogEvent}

/-! ## The final drain -/

/-- The format thread is behind its loop. -/
def ConsumerAt.ending : ConsumerAt → Bool
  | .finalDrain | .drain .. | .drainFormat .. | .handOver | .exited => true
  | _ => false

/-- The final drain has left slot `j` behind. -/
def ConsumerAt.past : ConsumerAt → Nat → Bool
  | .drain i _, j | .drainFormat i _ _, j => j < i
  | .handOver, _ | .exited, _ => true
  | _, _ => false

/-- The write thread is behind its loop. -/
def WriterAt.gone : WriterAt → Bool
  | .finalFlush | .exited => true
  | _ => false

/-- How the format thread comes to a place behind its loop. -/
inductive Ending (s : Logger) : ConsumerAt → Prop where
  | enter (hr : s.running = false) : Ending s .finalDrain
  | start (hc : s.consumer = .finalDrain) : Ending s (.drain 0 [])
  | stay {next : ConsumerAt} (he : s.consumer.ending = true) (hp : next.past = s.consumer.past)
      (hne : next ≠ .exited) : Ending s next
  | next {i : Nat} (hc : s.consumer = .drain i [])
      (hq : ∀ slot, s.slots[i]? = some slot → slot.queue = []) : Ending s (.drain (i + 1) [])
  | last {i : Nat} (hc : s.consumer = .drain i []) (hlen : s.slots.length ≤ i + 1)
      (hq : ∀ slot, s.slots[i]? = some slot → slot.queue = []) : Ending s .handOver
  | exit (hc : s.consumer = .handOver) : Ending s .exited

theorem consume_ending (hs : s.consume date = some (s', es)) (he : s'.consumer.ending = true) :
    Ending s s'.consumer := by
  unfold Logger.consume at hs
  cases hc : s.consumer with
  | loop =>
    simp only [hc] at hs
    obtain ⟨rfl, rfl⟩ := Prod.mk.inj (Option.some.inj hs)
    cases hr : s.running with
    | true => simp [hr, ConsumerAt.ending] at he
    | false => exact .enter hr
  | hasData | stillRunning | needFlush =>
    simp only [hc] at hs
    obtain ⟨rfl, rfl⟩ := Prod.mk.inj (Option.some.inj hs)
    dsimp only at he
    split at he <;> exact absurd he (by simp [ConsumerAt.ending])
  | poll =>
    simp only [hc] at hs
    split at hs <;> obtain ⟨rfl, rfl⟩ := Prod.mk.inj (Option.some.inj hs) <;>
      exact absurd he (by simp [ConsumerAt.ending])
  | polling idx polled batch =>
    simp only [hc] at hs
    split at hs
    · obtain ⟨rfl, rfl⟩ := Prod.mk.inj (Option.some.inj hs)
      exact absurd he (by simp [ConsumerAt.ending])
    · split at hs
      · obtain ⟨rfl, rfl⟩ := Prod.mk.inj (Option.some.inj hs)
        exact absurd he (by simp [ConsumerAt.ending])
      · split at hs <;> obtain ⟨rfl, rfl⟩ := Prod.mk.inj (Option.some.inj hs) <;>
          exact absurd he (by simp [ConsumerAt.ending])
  | format e rest =>
    simp only [hc] at hs
    cases rest <;> obtain ⟨rfl, rfl⟩ := Prod.mk.inj (Option.some.inj hs) <;>
      exact absurd he (by simp [ConsumerAt.ending])
  | swapBuffer | idleSwap | wakeWriter | wait =>
    simp only [hc] at hs
    obtain ⟨rfl, rfl⟩ := Prod.mk.inj (Option.some.inj hs)
    exact absurd he (by simp [ConsumerAt.ending])
  | finalDrain =>
    simp only [hc] at hs
    obtain ⟨rfl, rfl⟩ := Prod.mk.inj (Option.some.inj hs)
    exact .start hc
  | drain i batch =>
    simp only [hc] at hs
    split at hs
    · obtain ⟨rfl, rfl⟩ := Prod.mk.inj (Option.some.inj hs)
      exact .stay (by rw [hc]; rfl) (by rw [hc]; rfl) (by simp)
    · rename_i hdeq
      split at hs <;> obtain ⟨rfl, rfl⟩ := Prod.mk.inj (Option.some.inj hs)
      · exact .stay (by rw [hc]; rfl) (by rw [hc]; rfl) (by simp)
      · have hq : ∀ slot, s.slots[i]? = some slot → slot.queue = [] :=
          fun slot hi => tryDequeue_eq_none hdeq hi
        dsimp only
        split
        · exact .next hc hq
        · exact .last hc (by omega) hq
  | drainFormat i e rest =>
    simp only [hc] at hs
    cases rest <;> obtain ⟨rfl, rfl⟩ := Prod.mk.inj (Option.some.inj hs) <;>
      exact .stay (by rw [hc]; rfl) (by rw [hc]; rfl) (by simp)
  | handOver =>
    simp only [hc] at hs
    obtain ⟨rfl, rfl⟩ := Prod.mk.inj (Option.some.inj hs)
    exact .exit hc
  | exited =>
    simp only [hc] at hs
    exact nomatch hs

theorem ConsumerAt.past_ending {c : ConsumerAt} {j : Nat} (h : c.past j = true) :
    c.ending = true := by
  cases c <;> first | rfl | exact absurd h (by simp [ConsumerAt.past])

/-- A slot is only left behind once its queue was empty. -/
theorem past_of_consume (hs : s.consume date = some (s', es)) {j : Nat}
    (hj : s'.consumer.past j = true) :
    s.consumer.past j = true ∨ ∀ slot, s.slots[j]? = some slot → slot.queue = [] := by
  have he := consume_ending hs (ConsumerAt.past_ending hj)
  generalize s'.consumer = next at he hj
  cases he with
  | enter hr => exact absurd hj (by simp [ConsumerAt.past])
  | start hc => exact absurd hj (by simp [ConsumerAt.past])
  | stay he hp hne => exact Or.inl (by rw [← hp]; exact hj)
  | exit hc => exact Or.inl (by rw [hc]; rfl)
  | @next i hc hq =>
    by_cases hji : j = i
    · exact Or.inr (hji ▸ hq)
    · have hlt : j < i + 1 := by simpa [ConsumerAt.past] using hj
      exact Or.inl (by simp [hc, ConsumerAt.past]; omega)
  | @last i hc hlen hq =>
    by_cases hji : j = i
    · exact Or.inr (hji ▸ hq)
    · by_cases hlt : j < i
      · exact Or.inl (by simp [hc, ConsumerAt.past, hlt])
      · refine Or.inr fun slot hslot => ?_
        have := (List.getElem?_eq_some_iff.mp hslot).1
        omega

/-! ## The lines -/

/-- The lines are those that were formatted, and a buffer that is given is announced. -/
structure Flow (s : Logger) (tr : List LogEvent) (h : Handoff (LogEntry × Bytes)) : Prop where
  carries : Carries s h
  perm : h.all.Perm (formatted tr)
  ready : s.writeReady = false → s.writeBuf = []

theorem consume_ready (hs : ConsumeStep s s' es) (hready : s.writeReady = false → s.writeBuf = []) :
    s'.writeReady = false → s'.writeBuf = [] := by
  intro h'
  cases hs with
  | dequeue hi hq hb heq | format hb hline heq =>
    rw [heq] at h' ⊢
    exact hready h'
  | swap hswaps hb heq =>
    rw [heq] at h'
    exact absurd h' (by simp [Logger.swapIf])
  | move hb hmono hhand heq =>
    rw [heq]
    refine hready ?_
    cases hr : s.writeReady with
    | false => rfl
    | true => exact absurd (hmono hr) (by simp [h'])

theorem write_ready (hc : Carries s h) (hs : s.write = some s')
    (hready : s.writeReady = false → s.writeBuf = []) :
    s'.writeReady = false → s'.writeBuf = [] := by
  cases write_step hs with
  | take hw =>
    intro _
    simp [hc.buf, hc.idle (by simp [hw]), textOf]
  | enter | leave | again | last | stopped | write | flush | finalFlush => exact hready

theorem step_flow (hf : Flow s tr h) (hs : s.step date l = some (s', es)) :
    ∃ h', Flow s' (tr ++ es) h' ∧ h.out <+: h'.out := by
  obtain ⟨h', hc', hm⟩ := step_handed hf.carries hs
  have hperm : h'.all.Perm (formatted (tr ++ es)) := by
    rw [formatted_append]
    exact hm.perm.trans (hf.perm.append_right _)
  refine ⟨h', ⟨hc', hperm, ?_⟩, hm.out⟩
  cases l with
  | consume => exact consume_ready (consume_step hs) hf.ready
  | write =>
    obtain ⟨s₁, hw, heq⟩ := Option.map_eq_some_iff.mp hs
    obtain ⟨rfl, -⟩ := Prod.mk.inj heq
    exact write_ready hf.carries hw hf.ready
  | _ =>
    obtain ⟨heq, -⟩ := (aside_step hs (by simp) (by simp)).frame
    rw [heq]
    exact hf.ready

/-! ## The entries -/

def Logger.queues (s : Logger) : List (List LogEntry) := s.slots.map ThreadSlot.queue

theorem queues_getElem? {i : Nat} {slot : ThreadSlot} (hi : s.slots[i]? = some slot) :
    s.queues[i]? = some slot.queue := by
  simp [Logger.queues, hi]

/-- Every published entry is formatted, in the batch or in a queue; while the logger runs, its
    threads are in their loops. -/
structure Started (s : Logger) (tr : List LogEvent) : Prop where
  called : s.stopAt = .notCalled → s.running = true
  looping : s.running = true → s.consumer.ending = false
  writing : s.running = true → s.writer ≠ .ready ∧ s.writer.gone = false
  account : (published tr).Perm
    ((formatted tr).map Prod.fst ++ s.consumer.batch ++ s.queues.flatten)

/-- A dequeue moves an entry from its queue to the batch. -/
theorem dequeue_perm {F batch : List LogEntry} {queues : List (List LogEntry)} {i : Nat}
    {e : LogEntry} {queue : List LogEntry} (hi : queues[i]? = some (e :: queue)) :
    (F ++ batch ++ queues.flatten).Perm (F ++ (batch ++ [e]) ++ (queues.set i queue).flatten) := by
  have hperm := (List.flatten_set_perm hi).append_left (F ++ batch)
  simpa only [List.append_assoc, List.singleton_append] using hperm

theorem consume_account (hs : ConsumeStep s s' es)
    (ha : (published tr).Perm
      ((formatted tr).map Prod.fst ++ s.consumer.batch ++ s.queues.flatten)) :
    (published (tr ++ es)).Perm
      ((formatted (tr ++ es)).map Prod.fst ++ s'.consumer.batch ++ s'.queues.flatten) := by
  rw [published_append, formatted_append]
  cases hs with
  | @dequeue i slot e queue hi hq hb heq =>
    have hqi := queues_getElem? hi
    rw [hq] at hqi
    have hset : s'.queues = s.queues.set i queue := by
      rw [heq]
      exact List.map_set
    rw [hset, hb]
    simpa [published, formatted] using ha.trans (dequeue_perm hqi)
  | @format e line hb hline heq =>
    have hsame : s'.queues = s.queues := by
      rw [heq]
      rfl
    rw [hsame]
    simpa [published, formatted, hb] using ha
  | swap hswaps hb heq | move hb hready hhand heq =>
    have hsame : s'.queues = s.queues := by
      rw [heq]
      rfl
    rw [hsame, hb]
    simpa [published, formatted] using ha

/-- The queue of a slot that stays grows. -/
theorem AsideStep.slots (hs : AsideStep s s' es) {j : Nat} {slot : ThreadSlot}
    (hj : s.slots[j]? = some slot) :
    ∃ slot', s'.slots[j]? = some slot' ∧ slot.queue <+: slot'.queue := by
  cases hs with
  | keep heq | stop hcalled hrunning hjoin heq =>
    rw [heq]
    exact ⟨slot, hj, List.prefix_rfl⟩
  | register heq =>
    rw [heq]
    exact ⟨slot, by simp [List.getElem?_append_left (List.getElem?_eq_some_iff.mp hj).1, hj],
      List.prefix_rfl⟩
  | @set i old new _ hi hq hfmt heq =>
    rw [heq]
    by_cases hij : i = j
    · subst hij
      obtain rfl := Option.some.inj (hi.symm.trans hj)
      exact ⟨new, List.getElem?_set_self (List.getElem?_eq_some_iff.mp hi).1,
        hq ▸ List.prefix_append _ _⟩
    · exact ⟨slot, by rw [List.getElem?_set_ne hij]; exact hj, List.prefix_rfl⟩

/-- What is published comes to the queues. -/
theorem AsideStep.queues (hs : AsideStep s s' es) :
    s'.queues.flatten.Perm (s.queues.flatten ++ published es) := by
  cases hs with
  | keep heq | register heq | stop hcalled hrunning hjoin heq =>
    rw [heq]
    simp [published, Logger.queues]
  | @set i slot new _ hi hq hfmt heq =>
    have hset : s'.queues = s.queues.set i (slot.queue ++ published es) := by
      rw [heq, ← hq]
      exact List.map_set
    rw [hset]
    exact List.flatten_set_append_perm (queues_getElem? hi) _

theorem started_new (queueCapacity : Nat) : Started (.new queueCapacity) [] :=
  ⟨fun _ => rfl, fun _ => rfl, fun _ => ⟨by simp [Logger.new], rfl⟩, by
    simp [published, formatted, Logger.new, Logger.queues, ConsumerAt.batch]⟩

theorem consume_running (hs : ConsumeStep s s' es) :
    s'.running = s.running ∧ s'.writer = s.writer ∧ s'.stopAt = s.stopAt := by
  cases hs with
  | dequeue hi hq hb heq | format hb hline heq | swap hswaps hb heq | move hb hready hhand heq =>
    rw [heq]
    exact ⟨rfl, rfl, rfl⟩

/-- A step of the write thread leaves everything of the format thread alone. -/
theorem write_eq_some (hs : s.write = some s') :
    s' =
      { s with
        needFlush := s'.needFlush
        writeBuf := s'.writeBuf
        writeReady := s'.writeReady
        buf := s'.buf
        file := s'.file
        writer := s'.writer } ∧
      (s.running = true → s.writer ≠ .ready → s.writer.gone = false →
        s'.writer ≠ .ready ∧ s'.writer.gone = false) := by
  cases write_step hs with
  | enter | take | write | flush => exact ⟨rfl, fun _ _ _ => ⟨by simp, rfl⟩⟩
  | again hw | last hw => exact ⟨rfl, fun _ hne => absurd hw hne⟩
  | leave hw hr | stopped hw _ hr => exact ⟨rfl, fun hr' => absurd hr' (by simp [hr])⟩
  | finalFlush hw => exact ⟨rfl, fun _ _ hgone => absurd hgone (by simp [hw, WriterAt.gone])⟩

theorem AsideStep.running (hs : AsideStep s s' es) :
    (s'.stopAt = .notCalled → s'.running = s.running ∧ s.stopAt = .notCalled) ∧
      (s'.running = true → s.running = true) := by
  cases hs with
  | stop hcalled hrunning hjoin heq => exact ⟨fun h => absurd h hcalled, hrunning⟩
  | keep heq | register heq | set hi hq hfmt heq =>
    rw [heq]
    exact ⟨fun h => ⟨rfl, h⟩, id⟩

theorem step_started (hst : Started s tr) (hs : s.step date l = some (s', es)) :
    Started s' (tr ++ es) := by
  cases l with
  | consume =>
    have hstep := consume_step hs
    obtain ⟨hrunning, hwriter, hstop⟩ := consume_running hstep
    refine ⟨?_, fun hr => ?_, ?_, consume_account hstep hst.account⟩
    · rw [hstop, hrunning]
      exact hst.called
    · have hloop := hst.looping (hrunning ▸ hr)
      refine Bool.eq_false_iff.mpr fun hend => ?_
      have he := consume_ending hs hend
      generalize s'.consumer = next at he
      cases he with
      | enter hr' => exact absurd (hrunning ▸ hr) (by simp [hr'])
      | stay he => exact absurd he (by simp [hloop])
      | start hc | next hc | last hc | exit hc =>
        exact absurd hloop (by simp [hc, ConsumerAt.ending])
    · rw [hrunning, hwriter]
      exact hst.writing
  | write =>
    obtain ⟨s₁, hw, heq⟩ := Option.map_eq_some_iff.mp hs
    obtain ⟨rfl, rfl⟩ := Prod.mk.inj heq
    obtain ⟨hframe, hwriter⟩ := write_eq_some hw
    have hwriting : s₁.running = true → s₁.writer ≠ .ready ∧ s₁.writer.gone = false := by
      intro hr
      rw [hframe] at hr
      obtain ⟨hne, hgone⟩ := hst.writing hr
      exact hwriter hr hne hgone
    rw [List.append_nil]
    rw [hframe] at hwriting ⊢
    exact ⟨hst.called, hst.looping, hwriting, hst.account⟩
  | _ =>
    have hstep := aside_step hs (by simp) (by simp)
    obtain ⟨hframe, hfmt⟩ := hstep.frame
    obtain ⟨hcalled, hrunning⟩ := hstep.running
    have hplaces : s'.consumer = s.consumer ∧ s'.writer = s.writer := by
      rw [hframe]
      exact ⟨rfl, rfl⟩
    refine ⟨fun h => ?_, fun h => ?_, fun h => ?_, ?_⟩
    · obtain ⟨hr, hnot⟩ := hcalled h
      exact hr ▸ hst.called hnot
    · rw [hplaces.1]
      exact hst.looping (hrunning h)
    · rw [hplaces.2]
      exact hst.writing (hrunning h)
    · rw [published_append, formatted_append, hfmt, List.append_nil, hplaces.1]
      refine (hst.account.append_right _).trans ?_
      rw [List.append_assoc]
      exact hstep.queues.symm.append_left _

/-! ## What is owed -/

/-- The write thread is at a test that finds the logger stopped and no buffer given. -/
def Logger.leaves (s : Logger) : Bool :=
  match s.writer with
  | .ready => !s.writeReady
  | .wait => !s.writeReady && !s.running
  | _ => false

/-- The format thread holds no entry and no line, and finds none. -/
def Logger.idle (s : Logger) : Bool :=
  s.fmtBuf.isEmpty && s.consumer.batch.isEmpty && s.slots.all fun slot => slot.queue.isEmpty

/-- The condition on a step: the write thread leaves its loop only once the format thread has
    exited or has nothing to hand over, and the last swap finds the previous buffer taken. -/
structure WritesAll (s : Logger) (l : LogLabel) : Prop where
  leaves : l = .write → s.leaves = true → s.consumer = .exited ∨ s.idle = true
  last : l = .consume → s.consumer = .handOver → s.swaps = true → s.writeBuf = []

instance (s : Logger) : DecidablePred (WritesAll s) := fun l =>
  decidable_of_iff ((l = .write → s.leaves = true → s.consumer = .exited ∨ s.idle = true) ∧
      (l = .consume → s.consumer = .handOver → s.swaps = true → s.writeBuf = []))
    ⟨fun h => ⟨h.1, h.2⟩, fun h => ⟨h.leaves, h.last⟩⟩

/-- The entries of `owed` are formatted, in the batch or in `olds`, the older parts of the
    queues; once the write thread is gone, their lines are written. -/
structure Owed (owed : List LogEntry) (s : Logger) (tr : List LogEvent)
    (h : Handoff (LogEntry × Bytes)) (olds : List (List LogEntry)) : Prop where
  flow : Flow s tr h
  account : owed.Subperm ((formatted tr).map Prod.fst ++ s.consumer.batch ++ olds.flatten)
  slots : ∀ (j : Nat) old, olds[j]? = some old →
    ∃ slot, s.slots[j]? = some slot ∧ old <+: slot.queue
  past : ∀ (j : Nat) old, s.consumer.past j = true → olds[j]? = some old → old = []
  handed : s.consumer = .exited → s.fmtBuf = []
  gone : s.writer.gone = true → owed.Subperm (h.out.map Prod.fst)
  joined : s.stopAt = .returned → s.writer = .exited

variable {owed : List LogEntry} {olds : List (List LogEntry)}

/-- A step that changes neither the batch nor the queues, and formats nothing. -/
theorem account_same (ho : Owed owed s tr h olds) (hfmt : formatted es = [])
    (hb : s'.consumer.batch = s.consumer.batch) :
    owed.Subperm ((formatted (tr ++ es)).map Prod.fst ++ s'.consumer.batch ++ olds.flatten) := by
  rw [formatted_append, hfmt, List.append_nil, hb]
  exact ho.account

theorem aside_owed (ho : Owed owed s tr h olds) (hf : Flow s' (tr ++ es) h')
    (hout : h.out <+: h'.out) (hs : AsideStep s s' es) : Owed owed s' (tr ++ es) h' olds := by
  obtain ⟨hframe, hfmt⟩ := hs.frame
  have hplaces : s'.consumer = s.consumer ∧ s'.writer = s.writer ∧ s'.fmtBuf = s.fmtBuf := by
    rw [hframe]
    exact ⟨rfl, rfl, rfl⟩
  obtain ⟨hconsumer, hwriter, hfmtBuf⟩ := hplaces
  refine ⟨hf, account_same ho hfmt (by rw [hconsumer]), fun j old hj => ?_, ?_, ?_, ?_, ?_⟩
  · obtain ⟨slot, hslot, hpre⟩ := ho.slots j old hj
    obtain ⟨slot', hslot', hgrow⟩ := hs.slots hslot
    exact ⟨slot', hslot', hpre.trans hgrow⟩
  · rw [hconsumer]
    exact ho.past
  · rw [hconsumer, hfmtBuf]
    exact ho.handed
  · rw [hwriter]
    exact fun hg => (ho.gone hg).trans (hout.map Prod.fst).sublist.subperm
  · intro hret
    rw [hwriter]
    cases hs with
    | stop hcalled hrunning hjoin heq => exact hjoin hret
    | keep heq | register heq | set hi hq hfmt heq =>
      rw [heq] at hret
      exact ho.joined hret

/-- Nothing is left in the older parts of the queues when the final drain is through. -/
theorem Owed.drained (ho : Owed owed s tr h olds) (hc : s.consumer = .exited) :
    olds.flatten = [] := by
  rw [List.flatten_eq_nil_iff]
  intro old hold
  obtain ⟨j, hj⟩ := List.mem_iff_getElem?.mp hold
  exact ho.past j old (by rw [hc]; rfl) hj

theorem Owed.empty (ho : Owed owed s tr h olds)
    (hq : s.slots.all (fun slot => slot.queue.isEmpty) = true) : olds.flatten = [] := by
  rw [List.flatten_eq_nil_iff]
  intro old hold
  obtain ⟨j, hj⟩ := List.mem_iff_getElem?.mp hold
  obtain ⟨slot, hslot, hpre⟩ := ho.slots j old hj
  have hnil := List.all_eq_true.mp hq slot (List.mem_of_getElem? hslot)
  rw [List.isEmpty_iff.mp hnil] at hpre
  exact List.prefix_nil.mp hpre

/-- The write thread leaves nothing behind under the condition. -/
theorem Owed.written (ho : Owed owed s tr h olds) (hleaves : s.leaves = true)
    (hok : WritesAll s .write) : owed.Subperm (h.out.map Prod.fst) := by
  have hat : s.writer ≠ .write ∧ s.writeReady = false := by
    unfold Logger.leaves at hleaves
    split at hleaves <;> simp_all
  have hleft : s.fmtBuf = [] ∧ s.consumer.batch = [] ∧ olds.flatten = [] := by
    rcases hok.leaves rfl hleaves with hc | hidle
    · exact ⟨ho.handed hc, by rw [hc]; rfl, ho.drained hc⟩
    · simp only [Logger.idle, Bool.and_eq_true] at hidle
      obtain ⟨⟨hfmt, hb⟩, hq⟩ := hidle
      exact ⟨List.isEmpty_iff.mp hfmt, List.isEmpty_iff.mp hb, ho.empty hq⟩
  obtain ⟨hfmt, hb, holds⟩ := hleft
  have hcarries := ho.flow.carries
  have hgiven : h.given = [] := textOf_eq_nil
    (fun x hx => hcarries.lines x (by simp [Handoff.all, hx]))
    (hcarries.writeBuf.symm.trans (ho.flow.ready hat.2))
  have hfilling : h.filling = [] := textOf_eq_nil
    (fun x hx => hcarries.lines x (by simp [Handoff.all, hx]))
    (hcarries.fmtBuf.symm.trans hfmt)
  have hall : h.all = h.out := h.all_eq_out (hcarries.idle hat.1) hgiven hfilling
  have haccount := ho.account
  rw [hb, holds, List.append_nil, List.append_nil] at haccount
  exact haccount.trans (((hall ▸ ho.flow.perm).map Prod.fst).symm.subperm)

theorem leaves_of_write (hs : s.write = some s') (hg : s.writer.gone = false)
    (hg' : s'.writer.gone = true) : s.leaves = true := by
  cases write_step hs with
  | last hw hready => simp [Logger.leaves, hw, hready]
  | stopped hw hready hr => simp [Logger.leaves, hw, hready, hr]
  | finalFlush hw => exact absurd hg (by simp [hw, WriterAt.gone])
  | enter | leave | again | take | write | flush => exact absurd hg' (by simp [WriterAt.gone])

theorem write_owed (ho : Owed owed s tr h olds) (hf : Flow s' tr h') (hout : h.out <+: h'.out)
    (hok : WritesAll s .write) (hs : s.write = some s') : Owed owed s' tr h' olds := by
  obtain ⟨hframe, -⟩ := write_eq_some hs
  have hgrow : (h.out.map Prod.fst).Subperm (h'.out.map Prod.fst) :=
    (hout.map Prod.fst).sublist.subperm
  have hgone : s'.writer.gone = true → owed.Subperm (h'.out.map Prod.fst) := by
    intro hg'
    cases hg : s.writer.gone with
    | true => exact (ho.gone hg).trans hgrow
    | false => exact (ho.written (leaves_of_write hs hg hg') hok).trans hgrow
  have hjoined : s'.stopAt = .returned → s'.writer = .exited := by
    intro hret
    rw [hframe] at hret
    rw [Logger.write, ho.joined hret] at hs
    exact nomatch hs
  have hsame : s'.consumer = s.consumer ∧ s'.fmtBuf = s.fmtBuf ∧ s'.slots = s.slots := by
    rw [hframe]
    exact ⟨rfl, rfl, rfl⟩
  obtain ⟨hconsumer, hfmt, hslots⟩ := hsame
  refine ⟨hf, ?_, ?_, ?_, ?_, hgone, hjoined⟩
  · rw [hconsumer]
    exact ho.account
  · rw [hslots]
    exact ho.slots
  · rw [hconsumer]
    exact ho.past
  · rw [hconsumer, hfmt]
    exact ho.handed

/-- A dequeue takes an entry out of the older part of its queue, or one that nobody owes. -/
theorem dequeue_olds {F batch : List LogEntry} {i : Nat} {e : LogEntry} {queue : List LogEntry}
    (hold : ∀ old, olds[i]? = some old → old <+: e :: queue)
    (ha : owed.Subperm (F ++ batch ++ olds.flatten)) :
    ∃ olds' : List (List LogEntry), owed.Subperm (F ++ (batch ++ [e]) ++ olds'.flatten) ∧
      (∀ old, olds'[i]? = some old → old <+: queue) ∧
        ∀ (j : Nat) old, olds'[j]? = some old →
          (j = i → ∀ old, olds[i]? = some old → old = []) → olds[j]? = some old := by
  have hmore : (F ++ batch ++ olds.flatten).Subperm (F ++ (batch ++ [e]) ++ olds.flatten) := by
    simp only [List.append_assoc]
    exact ((((List.sublist_append_right [e] olds.flatten).append_left batch).append_left
      F)).subperm
  cases hi : olds[i]? with
  | none => exact ⟨olds, ha.trans hmore, by simp [hi], fun j old hj _ => hj⟩
  | some old =>
    cases old with
    | nil =>
      refine ⟨olds, ha.trans hmore, fun old hold => ?_, fun j old hj _ => hj⟩
      obtain rfl := Option.some.inj (hi.symm.trans hold)
      exact List.nil_prefix
    | cons e' old =>
      obtain ⟨rfl, hpre⟩ := List.cons_prefix_cons.mp (hold _ hi)
      have hlt := (List.getElem?_eq_some_iff.mp hi).1
      refine ⟨olds.set i old, ha.trans (dequeue_perm hi).subperm, fun old' hold' => ?_,
        fun j old' hj hne => ?_⟩
      · rw [List.getElem?_set_self hlt] at hold'
        exact Option.some.inj hold' ▸ hpre
      · have hji : j ≠ i := fun heq => absurd (hne heq _ rfl) (by simp)
        rwa [List.getElem?_set_ne (Ne.symm hji)] at hj

theorem exited_of_consume (hs : s.consume date = some (s', es)) (hc : s'.consumer = .exited) :
    s.consumer = .handOver := by
  have he := consume_ending hs (by rw [hc]; rfl)
  generalize s'.consumer = next at he hc
  cases he with
  | exit hlast => exact hlast
  | stay he hp hne => exact absurd hc hne
  | enter | start | next | last => exact nomatch hc

/-- Nothing of what is owed is in a queue that the final drain has left behind. -/
theorem Owed.past_of_consume (ho : Owed owed s tr h olds) (hs : s.consume date = some (s', es))
    {j : Nat} {old : List LogEntry} (hj : s'.consumer.past j = true) (hold : olds[j]? = some old) :
    old = [] := by
  rcases Common.past_of_consume hs hj with hp | hq
  · exact ho.past j old hp hold
  · obtain ⟨slot, hslot, hpre⟩ := ho.slots j old hold
    rw [hq slot hslot] at hpre
    exact List.prefix_nil.mp hpre

theorem consume_owed (ho : Owed owed s tr h olds) (hf : Flow s' (tr ++ es) h')
    (hout : h.out <+: h'.out) (hok : WritesAll s .consume)
    (hs : s.consume date = some (s', es)) : ∃ olds', Owed owed s' (tr ++ es) h' olds' := by
  have hstep := consume_step hs
  obtain ⟨-, hwriter, hstop⟩ := consume_running hstep
  have hgone : s'.writer.gone = true → owed.Subperm (h'.out.map Prod.fst) := by
    rw [hwriter]
    exact fun hg => (ho.gone hg).trans (hout.map Prod.fst).sublist.subperm
  have hjoined : s'.stopAt = .returned → s'.writer = .exited := by
    rw [hwriter, hstop]
    exact ho.joined
  have hpast : ∀ (j : Nat) old, s'.consumer.past j = true → olds[j]? = some old → old = [] :=
    fun j old hj hold => ho.past_of_consume hs hj hold
  cases hstep with
  | @dequeue i slot e queue hi hq hb heq =>
    have hold : ∀ old, olds[i]? = some old → old <+: e :: queue := by
      intro old hold
      obtain ⟨slot', hslot', hpre⟩ := ho.slots i old hold
      obtain rfl := Option.some.inj (hi.symm.trans hslot')
      exact hq ▸ hpre
    obtain ⟨olds', haccount, hi', hsame⟩ := dequeue_olds hold ho.account
    refine ⟨olds', hf, ?_, fun j old hj => ?_, fun j old hp hj => ?_, fun hc => ?_, hgone, hjoined⟩
    · rw [List.append_nil, hb]
      exact haccount
    · rw [heq]
      by_cases hji : j = i
      · subst hji
        exact ⟨_, List.getElem?_set_self (List.getElem?_eq_some_iff.mp hi).1, hi' old hj⟩
      · obtain ⟨slot', hslot', hpre⟩ := ho.slots j old (hsame j old hj fun h => absurd h hji)
        exact ⟨slot', by rw [List.getElem?_set_ne (Ne.symm hji)]; exact hslot', hpre⟩
    · exact hpast j old hp (hsame j old hj fun h o => hpast i o (h ▸ hp))
    · exact absurd hb (by simp [hc, ConsumerAt.batch])
  | @format e line hb hline heq =>
    have hslots : s'.slots = s.slots := by rw [heq]
    refine ⟨olds, hf, ?_, hslots ▸ ho.slots, hpast, fun hc => ?_, hgone, hjoined⟩
    · have haccount := ho.account
      rw [hb] at haccount
      rw [formatted_append]
      simpa [formatted] using haccount
    · have hc := exited_of_consume hs hc
      exact absurd hb (by simp [hc, ConsumerAt.batch])
  | swap hswaps hb heq =>
    have hsame : s'.slots = s.slots ∧ s'.fmtBuf = s.writeBuf := by
      rw [heq]
      exact ⟨rfl, rfl⟩
    refine ⟨olds, hf, account_same ho rfl hb, hsame.1 ▸ ho.slots, hpast, fun hc => ?_, hgone,
      hjoined⟩
    rw [hsame.2]
    exact hok.last rfl (exited_of_consume hs hc) hswaps
  | move hb hready hhand heq =>
    have hsame : s'.slots = s.slots ∧ s'.fmtBuf = s.fmtBuf := by
      rw [heq]
      exact ⟨rfl, rfl⟩
    refine ⟨olds, hf, account_same ho rfl hb, hsame.1 ▸ ho.slots, hpast, fun hc => ?_, hgone,
      hjoined⟩
    rw [hsame.2]
    exact hhand (exited_of_consume hs hc)

theorem step_owed (ho : Owed owed s tr h olds) (hok : WritesAll s l)
    (hs : s.step date l = some (s', es)) : ∃ h' olds', Owed owed s' (tr ++ es) h' olds' := by
  obtain ⟨h', hf, hout⟩ := step_flow ho.flow hs
  cases l with
  | consume => exact ⟨h', consume_owed ho hf hout hok hs⟩
  | write =>
    obtain ⟨s₁, hw, heq⟩ := Option.map_eq_some_iff.mp hs
    obtain ⟨rfl, rfl⟩ := Prod.mk.inj heq
    rw [List.append_nil] at hf ⊢
    exact ⟨h', olds, write_owed ho hf hout hok hw⟩
  | _ => exact ⟨h', olds, aside_owed ho hf hout (aside_step hs (by simp) (by simp))⟩

/-- What is published when `stop` is called is owed. -/
theorem Started.owes (hst : Started s tr) (hf : Flow s tr h) (hc : s.stopAt = .notCalled) :
    Owed (published tr) s tr h s.queues := by
  have hr := hst.called hc
  have hpast : ∀ j, s.consumer.past j = false := fun j =>
    Bool.eq_false_iff.mpr fun hp =>
      absurd (ConsumerAt.past_ending hp) (by simp [hst.looping hr])
  refine ⟨hf, hst.account.subperm, fun j old hj => ?_, fun j old hp => ?_, fun hexit => ?_,
    fun hg => ?_, fun hret => ?_⟩
  · rw [Logger.queues, List.getElem?_map] at hj
    obtain ⟨slot, hslot, rfl⟩ := Option.map_eq_some_iff.mp hj
    exact ⟨slot, hslot, List.prefix_rfl⟩
  · exact absurd hp (by simp [hpast j])
  · exact absurd (hst.looping hr) (by simp [hexit, ConsumerAt.ending])
  · exact absurd hg (by simp [(hst.writing hr).2])
  · exact absurd (hc.symm.trans hret) (by simp)

/-! ## Runs -/

theorem run_started {queueCapacity : Nat} {ls : List LogLabel}
    (hrun : run (Logger.step date) (.new queueCapacity) ls = some (s, tr)) :
    Started s tr ∧ ∃ h, Flow s tr h := by
  have hnew : Flow (.new queueCapacity) [] {} :=
    ⟨carries_new queueCapacity, .refl _, fun _ => rfl⟩
  refine run_induction (fun s tr => Started s tr ∧ ∃ h, Flow s tr h) ?_ []
    ⟨started_new queueCapacity, {}, hnew⟩ hrun
  intro s tr l s' es hst hs
  obtain ⟨hst, h, hf⟩ := hst
  obtain ⟨h', hf', -⟩ := step_flow hf hs
  exact ⟨step_started hst hs, h', hf'⟩

/-- In a run that meets the condition, the file holds the line of every entry that was
    published before `stop` was called, when `stop` returns. -/
theorem stop_writes_all (date : Nat → Bytes) (queueCapacity : Nat) (ls₁ ls₂ : List LogLabel)
    (s₁ s₂ : Logger) (tr₁ tr₂ : List LogEvent)
    (hrun₁ : run (Logger.step date) (.new queueCapacity) ls₁ = some (s₁, tr₁))
    (hcalled : s₁.stopAt = .notCalled) (hok : RunOk (Logger.step date) WritesAll s₁ ls₂)
    (hrun₂ : run (Logger.step date) s₁ ls₂ = some (s₂, tr₂)) (hret : s₂.stopAt = .returned) :
    ∃ lines, s₂.file = textOf lines ∧ lines.Subperm (formatted (tr₁ ++ tr₂)) ∧
      (published tr₁).Subperm (lines.map Prod.fst) := by
  obtain ⟨hst, h₁, hf⟩ := run_started hrun₁
  have howes : ∃ h olds, Owed (published tr₁) s₁ tr₁ h olds :=
    ⟨h₁, s₁.queues, hst.owes hf hcalled⟩
  obtain ⟨h, olds, ho⟩ := runOk_induction
    (fun s tr => ∃ h olds, Owed (published tr₁) s tr h olds)
    (fun s tr l s' es ho hok hs => by
      obtain ⟨h, olds, ho⟩ := ho
      exact step_owed ho hok hs) tr₁ howes hok hrun₂
  have hout : h.out.Sublist h.all := by
    simp only [Handoff.all, List.append_assoc]
    exact List.sublist_append_left _ _
  refine ⟨h.out, ho.flow.carries.file, hout.subperm.trans ho.flow.perm.subperm, ho.gone ?_⟩
  rw [ho.joined hret]
  rfl

/-- An entry is published, and `stop` is called. -/
def publishedFirst : List LogLabel := [.registerThisThread, .tryClaim 0, .publish 0 firstEntry]

/-- The format thread comes to its end before the write thread goes on. -/
def formatThreadFirst : List LogLabel :=
  .stop :: List.replicate 7 .consume ++ List.replicate 8 .write ++ [.stop, .stop]

def writeThreadFirst : List LogLabel :=
  .stop :: List.replicate 3 .write ++ List.replicate 7 .consume ++ [.stop, .stop]

/-- The final drain makes the last hand-over, and the write thread takes it. -/
theorem stop_writes_all_drained :
    ∃ s₁ s₂ tr₁ tr₂ lines,
      run (Logger.step fun _ => []) (.new 2) publishedFirst = some (s₁, tr₁) ∧
      run (Logger.step fun _ => []) s₁ formatThreadFirst = some (s₂, tr₂) ∧
      s₂.stopAt = .returned ∧ published tr₁ = [firstEntry] ∧ s₂.file = textOf lines ∧
      lines.Subperm (formatted (tr₁ ++ tr₂)) ∧ (published tr₁).Subperm (lines.map Prod.fst) := by
  have hrun₁ : (run (Logger.step fun _ => []) (.new 2) publishedFirst).map (fun r =>
      decide (r.1.stopAt = .notCalled ∧ published r.2 = [firstEntry] ∧
        RunOk (Logger.step fun _ => []) WritesAll r.1 formatThreadFirst ∧
        (run (Logger.step fun _ => []) r.1 formatThreadFirst).map (fun r => r.1.stopAt) =
          some .returned)) = some true := by
    decide +kernel
  obtain ⟨⟨s₁, tr₁⟩, h₁, heq⟩ := Option.map_eq_some_iff.mp hrun₁
  obtain ⟨hcalled, hpub, hok, hret⟩ := of_decide_eq_true heq
  obtain ⟨⟨s₂, tr₂⟩, h₂, hret⟩ := Option.map_eq_some_iff.mp hret
  obtain ⟨lines, hfile, hlines, hall⟩ :=
    stop_writes_all (fun _ => []) 2 publishedFirst _ s₁ s₂ tr₁ tr₂ h₁ hcalled hok h₂ hret
  exact ⟨s₁, s₂, tr₁, tr₂, lines, h₁, h₂, hret, hpub, hfile, hlines, hall⟩

/-- The write thread finds the logger stopped and no buffer given, and exits before the final
    drain: nothing is written. Or the last swap pushes the buffer back that is not yet taken:
    the first line is not written. -/
theorem stop_writes_all_lost :
    (∃ ls₁ ls₂ s₁ s₂ tr₁ tr₂, run (Logger.step fun _ => []) (.new 2) ls₁ = some (s₁, tr₁) ∧
      run (Logger.step fun _ => []) s₁ ls₂ = some (s₂, tr₂) ∧ s₁.stopAt = .notCalled ∧
      s₂.stopAt = .returned ∧ published tr₁ = [firstEntry] ∧ s₂.file = []) ∧
    ∃ ls₁ ls₂ s₁ s₂ tr₁ tr₂, run (Logger.step fun _ => []) (.new 2) ls₁ = some (s₁, tr₁) ∧
      run (Logger.step fun _ => []) s₁ ls₂ = some (s₂, tr₂) ∧ s₁.stopAt = .notCalled ∧
      s₂.stopAt = .returned ∧ published tr₁ = [firstEntry, secondEntry] ∧
      s₂.file = secondEntry.line [] := by
  have hleft : (run (Logger.step fun _ => []) (.new 2) publishedFirst).bind (fun r₁ =>
      (run (Logger.step fun _ => []) r₁.1 writeThreadFirst).map fun r₂ =>
          decide (r₁.1.stopAt = .notCalled ∧ r₂.1.stopAt = .returned ∧
            published r₁.2 = [firstEntry] ∧ r₂.1.file = [])) = some true := by
    decide +kernel
  have hback : (run (Logger.step fun _ => []) (.new 2) (.registerThisThread :: logged firstEntry ++
      [.tryClaim 0, .publish 0 secondEntry])).bind (fun r₁ =>
        (run (Logger.step fun _ => []) r₁.1 formatThreadFirst).map fun r₂ =>
            decide (r₁.1.stopAt = .notCalled ∧ r₂.1.stopAt = .returned ∧
              published r₁.2 = [firstEntry, secondEntry] ∧
              r₂.1.file = secondEntry.line [])) = some true := by
    decide +kernel
  constructor
  · obtain ⟨⟨s₁, tr₁⟩, h₁, heq⟩ := Option.bind_eq_some_iff.mp hleft
    obtain ⟨⟨s₂, tr₂⟩, h₂, heq⟩ := Option.map_eq_some_iff.mp heq
    obtain ⟨hcalled, hret, hpub, hfile⟩ := of_decide_eq_true heq
    exact ⟨_, _, s₁, s₂, tr₁, tr₂, h₁, h₂, hcalled, hret, hpub, hfile⟩
  · obtain ⟨⟨s₁, tr₁⟩, h₁, heq⟩ := Option.bind_eq_some_iff.mp hback
    obtain ⟨⟨s₂, tr₂⟩, h₂, heq⟩ := Option.map_eq_some_iff.mp heq
    obtain ⟨hcalled, hret, hpub, hfile⟩ := of_decide_eq_true heq
    exact ⟨_, _, s₁, s₂, tr₁, tr₂, h₁, h₂, hcalled, hret, hpub, hfile⟩

end RocketRpc.Common
