import RocketRpc.Common.Logger
import RocketRpc.Lib.Handoff
import RocketRpc.Lib.Machine

/-
  The order of the lines in the log file.

  A line is filled into `m_fmt_buf`, given with a swap, taken by the write thread and written.
  `Carries` says which lines the four strings hold. A swap that finds `m_write_buf` not yet
  taken puts newer lines in front of older ones; in the runs without such a swap, what is
  written is a prefix of what was formatted.
-/

namespace RocketRpc.Common

open RocketRpc.Tcp Machine

variable {date : Nat → Bytes}

/-- The next operation of the format thread swaps the buffers. -/
def Logger.swaps (s : Logger) : Bool :=
  match s.consumer with
  | .swapBuffer => kWriteThreshold ≤ s.fmtBuf.length
  | .idleSwap | .handOver => !s.fmtBuf.isEmpty
  | _ => false

theorem LogEntry.line_ne_nil (e : LogEntry) (d : Bytes) : e.line d ≠ [] :=
  List.append_ne_nil_of_right_ne_nil _ (by decide +kernel)

/-! ## What the other threads do -/

theorem registerThisThread_eq_some {s s' : Logger} (h : s.registerThisThread = some s') :
    s' = { s with slots := s.slots ++ [{}] } := by
  unfold Logger.registerThisThread at h
  split at h
  · exact nomatch h
  · exact (Option.some.inj h).symm

theorem tryClaim_eq_some {s s' : Logger} {i : Nat} (h : s.tryClaim i = some s') :
    s' = { s with droppedCount := s.droppedCount + 1 } ∨ ∃ slot, s.slots[i]? = some slot ∧
      s' = { s with slots := s.slots.set i { slot with claimed := true } } := by
  unfold Logger.tryClaim at h
  split at h
  · rename_i slot hi
    split at h
    · exact nomatch h
    · split at h
      · exact Or.inr ⟨slot, hi, (Option.some.inj h).symm⟩
      · exact Or.inl (Option.some.inj h).symm
  · exact nomatch h

theorem publish_eq_some {s s' : Logger} {i : Nat} {e : LogEntry} (h : s.publish i e = some s') :
    ∃ slot, s.slots[i]? = some slot ∧
      s' = { s with slots := s.slots.set i { queue := slot.queue ++ [e], claimed := false } } := by
  unfold Logger.publish at h
  split at h
  · rename_i slot hi
    split at h
    · exact ⟨slot, hi, (Option.some.inj h).symm⟩
    · exact nomatch h
  · exact nomatch h

theorem stop_eq_some {s s' : Logger} (h : s.stop = some s') :
    (s.stopAt = .notCalled ∧ s' = { s with running := false, stopAt := .joinConsumer }) ∨
    (s.stopAt = .joinConsumer ∧ s' = { s with stopAt := .joinWriter }) ∨
    (s.stopAt = .joinWriter ∧ s.writer = .exited ∧ s' = { s with stopAt := .returned }) := by
  unfold Logger.stop at h
  cases ha : s.stopAt with
  | notCalled =>
    simp only [ha] at h
    exact Or.inl ⟨rfl, (Option.some.inj h).symm⟩
  | joinConsumer =>
    simp only [ha] at h
    obtain ⟨-, h⟩ := Option.ite_none_right_eq_some.mp h
    exact Or.inr (Or.inl ⟨rfl, (Option.some.inj h).symm⟩)
  | joinWriter =>
    simp only [ha] at h
    obtain ⟨hw, h⟩ := Option.ite_none_right_eq_some.mp h
    exact Or.inr (Or.inr ⟨rfl, hw, (Option.some.inj h).symm⟩)
  | returned =>
    simp only [ha] at h
    exact nomatch h

/-- The threads that log, flush and stop leave the strings alone, and where the two other
    threads are. -/
inductive AsideStep (s s' : Logger) : List LogEvent → Prop where
  | keep (heq : s' = { s with needFlush := s'.needFlush, droppedCount := s'.droppedCount }) :
      AsideStep s s' []
  | register (heq : s' = { s with slots := s.slots ++ [{}] }) : AsideStep s s' []
  | set {i : Nat} {slot new : ThreadSlot} {es : List LogEvent} (hi : s.slots[i]? = some slot)
      (hq : new.queue = slot.queue ++ published es) (hfmt : formatted es = [])
      (heq : s' = { s with slots := s.slots.set i new }) : AsideStep s s' es
  | stop (hcalled : s'.stopAt ≠ .notCalled) (hrunning : s'.running = true → s.running = true)
      (hjoin : s'.stopAt = .returned → s.writer = .exited)
      (heq : s' = { s with running := s'.running, stopAt := s'.stopAt }) : AsideStep s s' []

theorem aside_step {s s' : Logger} {l : LogLabel} {es : List LogEvent}
    (h : s.step date l = some (s', es)) (hconsume : l ≠ .consume) (hwrite : l ≠ .write) :
    AsideStep s s' es := by
  cases l with
  | consume => exact absurd rfl hconsume
  | write => exact absurd rfl hwrite
  | flush =>
    obtain ⟨rfl, rfl⟩ := Prod.mk.inj (Option.some.inj h)
    exact .keep rfl
  | registerThisThread =>
    obtain ⟨s₁, h₁, heq⟩ := Option.map_eq_some_iff.mp h
    obtain ⟨rfl, rfl⟩ := Prod.mk.inj heq
    exact .register (registerThisThread_eq_some h₁)
  | tryClaim i =>
    obtain ⟨s₁, h₁, heq⟩ := Option.map_eq_some_iff.mp h
    obtain ⟨rfl, rfl⟩ := Prod.mk.inj heq
    rcases tryClaim_eq_some h₁ with heq | ⟨slot, hi, heq⟩
    · exact .keep (by rw [heq])
    · have hq : ({ slot with claimed := true } : ThreadSlot).queue = slot.queue ++ published [] :=
        (List.append_nil _).symm
      exact .set hi hq rfl heq
  | publish i e =>
    obtain ⟨s₁, h₁, heq⟩ := Option.map_eq_some_iff.mp h
    obtain ⟨rfl, rfl⟩ := Prod.mk.inj heq
    obtain ⟨slot, hi, heq⟩ := publish_eq_some h₁
    exact .set hi rfl rfl heq
  | stop =>
    obtain ⟨s₁, h₁, heq⟩ := Option.map_eq_some_iff.mp h
    obtain ⟨rfl, rfl⟩ := Prod.mk.inj heq
    rcases stop_eq_some h₁ with ⟨-, heq⟩ | ⟨-, heq⟩ | ⟨-, hw, heq⟩ <;> rw [heq]
    · exact .stop (by simp) (by simp) (by simp) rfl
    · exact .stop (by simp) id (by simp) rfl
    · exact .stop (by simp) id (fun _ => hw) rfl

theorem AsideStep.frame {s s' : Logger} {es : List LogEvent} (h : AsideStep s s' es) :
    s' =
      { s with
        running := s'.running
        needFlush := s'.needFlush
        slots := s'.slots
        droppedCount := s'.droppedCount
        stopAt := s'.stopAt } ∧ formatted es = [] := by
  cases h with
  | set hi hq hfmt heq =>
    rw [heq]
    exact ⟨rfl, hfmt⟩
  | keep heq | register heq | stop hcalled hrunning hjoin heq =>
    rw [heq]
    exact ⟨rfl, rfl⟩

/-! ## What a step of the format thread does -/

inductive ConsumeStep (s s' : Logger) : List LogEvent → Prop where
  | dequeue {i : Nat} {slot : ThreadSlot} {e : LogEntry} {queue : List LogEntry}
      (hi : s.slots[i]? = some slot) (hq : slot.queue = e :: queue)
      (hb : s'.consumer.batch = s.consumer.batch ++ [e])
      (heq : s' = { s with slots := s.slots.set i { slot with queue }, consumer := s'.consumer }) :
      ConsumeStep s s' []
  | format {e : LogEntry} {line : Bytes} (hb : s.consumer.batch = e :: s'.consumer.batch)
      (hline : line ≠ [])
      (heq : s' = { s with dtc := s'.dtc, fmtBuf := s.fmtBuf ++ line, consumer := s'.consumer }) :
      ConsumeStep s s' [.formatted e line]
  | swap (hswaps : s.swaps = true) (hb : s'.consumer.batch = s.consumer.batch)
      (heq : s' = { s.swapIf true with consumer := s'.consumer }) : ConsumeStep s s' []
  | move (hb : s'.consumer.batch = s.consumer.batch)
      (hready : s.writeReady = true → s'.writeReady = true)
      (hhand : s.consumer = .handOver → s.fmtBuf = [])
      (heq : s' =
        { s with
          writeReady := s'.writeReady
          pollIndex := s'.pollIndex
          consumer := s'.consumer }) : ConsumeStep s s' []

theorem tryDequeue_eq_some {s s' : Logger} {i : Nat} {batch : List LogEntry} {e : LogEntry}
    (h : s.tryDequeue i batch = some (e, s')) :
    ∃ slot queue, s.slots[i]? = some slot ∧ slot.queue = e :: queue ∧
      s' = { s with slots := s.slots.set i { slot with queue } } := by
  unfold Logger.tryDequeue at h
  split at h
  · split at h
    · rename_i slot hi
      split at h
      · rename_i e' queue hq
        obtain ⟨rfl, rfl⟩ := Prod.mk.inj (Option.some.inj h)
        exact ⟨slot, queue, hi, hq, rfl⟩
      · exact nomatch h
    · exact nomatch h
  · exact nomatch h

/-- A `tryDequeue` that has room for an entry and finds none. -/
theorem tryDequeue_eq_none {s : Logger} {i : Nat} (h : s.tryDequeue i [] = none)
    {slot : ThreadSlot} (hi : s.slots[i]? = some slot) : slot.queue = [] := by
  cases hq : slot.queue with
  | nil => rfl
  | cons e queue => simp [Logger.tryDequeue, kMaxDequeuePerRound, hi, hq] at h

theorem formatLine_step {s s' : Logger} {e : LogEntry} {next : ConsumerAt} {es : List LogEvent}
    (hb : s.consumer.batch = e :: next.batch) (h : s.formatLine date e next = (s', es)) :
    ConsumeStep s s' es := by
  obtain ⟨rfl, rfl⟩ := Prod.mk.inj h
  exact .format hb (e.line_ne_nil _) rfl

/-- The critical sections that swap: `next` is where the format thread comes to. -/
theorem swapIf_step {s : Logger} {b : Bool} {next : ConsumerAt} (hb : s.swaps = b)
    (hbatch : next.batch = s.consumer.batch) (hhand : s.consumer = .handOver → b = false →
      s.fmtBuf = []) : ConsumeStep s { s.swapIf b with consumer := next } [] := by
  cases b with
  | true => exact .swap hb hbatch rfl
  | false => exact .move hbatch id (fun hc => hhand hc rfl) rfl

/-- The format thread comes to `next` and changes nothing that others see. -/
theorem move_step {s : Logger} {n : Nat} {next : ConsumerAt}
    (hb : next.batch = s.consumer.batch) (hhand : s.consumer ≠ .handOver) :
    ConsumeStep s { s with pollIndex := n, consumer := next } [] :=
  .move hb id (fun h => absurd h hhand) rfl

theorem consume_step {s s' : Logger} {es : List LogEvent} (h : s.consume date = some (s', es)) :
    ConsumeStep s s' es := by
  unfold Logger.consume at h
  cases hc : s.consumer with
  | loop | hasData | stillRunning | needFlush =>
    simp only [hc] at h
    obtain ⟨rfl, rfl⟩ := Prod.mk.inj (Option.some.inj h)
    refine move_step ?_ (by simp [hc])
    rw [hc]
    split <;> rfl
  | poll =>
    simp only [hc] at h
    split at h <;> obtain ⟨rfl, rfl⟩ := Prod.mk.inj (Option.some.inj h) <;>
      exact move_step (by rw [hc]; rfl) (by simp [hc])
  | polling idx polled batch =>
    simp only [hc] at h
    split at h
    · rename_i e s₁ hdeq
      obtain ⟨rfl, rfl⟩ := Prod.mk.inj (Option.some.inj h)
      obtain ⟨slot, queue, hi, hq, rfl⟩ := tryDequeue_eq_some hdeq
      exact .dequeue hi hq (by rw [hc]; rfl) rfl
    · split at h
      · obtain ⟨rfl, rfl⟩ := Prod.mk.inj (Option.some.inj h)
        exact move_step (by rw [hc]; rfl) (by simp [hc])
      · split at h <;> obtain ⟨rfl, rfl⟩ := Prod.mk.inj (Option.some.inj h) <;>
          exact move_step (by rw [hc]; rfl) (by simp [hc])
  | format e rest | drainFormat i e rest =>
    simp only [hc] at h
    cases rest <;> exact formatLine_step (by rw [hc]; rfl) (Option.some.inj h)
  | swapBuffer | idleSwap =>
    simp only [hc] at h
    obtain ⟨rfl, rfl⟩ := Prod.mk.inj (Option.some.inj h)
    exact swapIf_step (by simp [Logger.swaps, hc]) (by rw [hc]; rfl) (by simp [hc])
  | handOver =>
    simp only [hc] at h
    obtain ⟨rfl, rfl⟩ := Prod.mk.inj (Option.some.inj h)
    exact swapIf_step (by simp [Logger.swaps, hc]) (by rw [hc]; rfl) fun _ hb => by simpa using hb
  | wakeWriter =>
    simp only [hc] at h
    obtain ⟨rfl, rfl⟩ := Prod.mk.inj (Option.some.inj h)
    exact .move (by rw [hc]; rfl) (fun _ => rfl) (by simp [hc]) rfl
  | wait | finalDrain =>
    simp only [hc] at h
    obtain ⟨rfl, rfl⟩ := Prod.mk.inj (Option.some.inj h)
    exact move_step (by rw [hc]; rfl) (by simp [hc])
  | drain i batch =>
    simp only [hc] at h
    split at h
    · rename_i e s₁ hdeq
      obtain ⟨rfl, rfl⟩ := Prod.mk.inj (Option.some.inj h)
      obtain ⟨slot, queue, hi, hq, rfl⟩ := tryDequeue_eq_some hdeq
      exact .dequeue hi hq (by rw [hc]; rfl) rfl
    · split at h <;> obtain ⟨rfl, rfl⟩ := Prod.mk.inj (Option.some.inj h)
      · exact move_step (by rw [hc]; rfl) (by simp [hc])
      · refine move_step ?_ (by simp [hc])
        rw [hc]
        split <;> rfl
  | exited =>
    simp only [hc] at h
    exact nomatch h

/-! ## What a step of the write thread does -/

inductive WriteStep (s : Logger) : Logger → Prop where
  | enter (hw : s.writer = .loop) (hr : s.running = true) : WriteStep s { s with writer := .wait }
  | leave (hw : s.writer = .loop) (hr : s.running = false) :
      WriteStep s { s with writer := .ready }
  | again (hw : s.writer = .ready) (hready : s.writeReady = true) :
      WriteStep s { s with writer := .wait }
  | last (hw : s.writer = .ready) (hready : s.writeReady = false) :
      WriteStep s { s with writer := .finalFlush }
  | take (hw : s.writer = .wait) (hready : s.writeReady = true) :
      WriteStep s
        { s with buf := s.writeBuf, writeBuf := s.buf, writeReady := false, writer := .write }
  | stopped (hw : s.writer = .wait) (hready : s.writeReady = false) (hr : s.running = false) :
      WriteStep s { s with writer := .finalFlush }
  | write (hw : s.writer = .write) :
      WriteStep s { s with file := s.file ++ s.buf, buf := [], writer := .flush }
  | flush (hw : s.writer = .flush) : WriteStep s { s with needFlush := false, writer := .loop }
  | finalFlush (hw : s.writer = .finalFlush) :
      WriteStep s { s with file := s.file ++ s.buf, writer := .exited }

theorem write_step {s s' : Logger} (h : s.write = some s') : WriteStep s s' := by
  unfold Logger.write at h
  cases hw : s.writer with
  | loop =>
    simp only [hw] at h
    obtain rfl := Option.some.inj h
    split
    · rename_i hr
      exact .enter hw hr
    · rename_i hr
      exact .leave hw (eq_false_of_ne_true hr)
  | ready =>
    simp only [hw] at h
    obtain rfl := Option.some.inj h
    split
    · rename_i hready
      exact .again hw hready
    · rename_i hready
      exact .last hw (eq_false_of_ne_true hready)
  | wait =>
    simp only [hw] at h
    split at h
    · rename_i hready
      obtain rfl := Option.some.inj h
      exact .take hw hready
    · rename_i hready
      split at h
      · exact nomatch h
      · rename_i hr
        obtain rfl := Option.some.inj h
        exact .stopped hw (eq_false_of_ne_true hready) (eq_false_of_ne_true hr)
  | write =>
    simp only [hw] at h
    obtain rfl := Option.some.inj h
    exact .write hw
  | flush =>
    simp only [hw] at h
    obtain rfl := Option.some.inj h
    exact .flush hw
  | finalFlush =>
    simp only [hw] at h
    obtain rfl := Option.some.inj h
    exact .finalFlush hw
  | exited =>
    simp only [hw] at h
    exact nomatch h

/-! ## Where the lines are -/

/-- `h` are the lines behind the file and the three strings. -/
structure Carries (s : Logger) (h : Handoff (LogEntry × Bytes)) : Prop where
  file : s.file = textOf h.out
  buf : s.buf = textOf h.taken
  writeBuf : s.writeBuf = textOf h.given
  fmtBuf : s.fmtBuf = textOf h.filling
  /-- The write thread has written what it took when it comes to take again. -/
  idle : s.writer ≠ .write → h.taken = []
  lines : ∀ x ∈ h.all, x.2 ≠ []

/-- What a step does to the lines, and the lines that it formats. -/
inductive Handed (s : Logger) (l : LogLabel) (h : Handoff (LogEntry × Bytes)) :
    Handoff (LogEntry × Bytes) → List (LogEntry × Bytes) → Prop where
  | stay : Handed s l h h []
  | put {x : LogEntry × Bytes} (hx : x.2 ≠ []) : Handed s l h (h.put x) [x]
  | trade (hl : l = .consume) (hswaps : s.swaps = true) : Handed s l h h.trade []
  | take (ht : h.taken = []) : Handed s l h h.take []
  | emit : Handed s l h h.emit []

theorem textOf_eq_nil {xs : List (LogEntry × Bytes)} (hne : ∀ x ∈ xs, x.2 ≠ [])
    (h : textOf xs = []) : xs = [] := by
  cases xs with
  | nil => rfl
  | cons x xs =>
    have hx : x.2 = [] := by
      simp only [textOf, List.map_cons, List.flatten_cons, List.append_eq_nil_iff] at h
      exact h.1
    exact absurd hx (hne x List.mem_cons_self)

variable {s s' : Logger} {l : LogLabel} {h h' : Handoff (LogEntry × Bytes)}
  {xs : List (LogEntry × Bytes)} {es tr : List LogEvent}

/-- No step loses a line or doubles one. -/
theorem Handed.perm (hm : Handed s l h h' xs) : h'.all.Perm (h.all ++ xs) := by
  cases hm with
  | stay => rw [List.append_nil]
  | put hx => rw [h.all_put]
  | trade hl hswaps => simpa using h.all_trade_perm
  | take ht => rw [h.all_take ht, List.append_nil]
  | emit => rw [h.all_emit, List.append_nil]

/-- What is written stays written. -/
theorem Handed.out (hm : Handed s l h h' xs) : h.out <+: h'.out := by
  cases hm with
  | emit => exact List.prefix_append _ _
  | _ => exact List.prefix_rfl

theorem Handed.lines (hm : Handed s l h h' xs) (hlines : ∀ x ∈ h.all, x.2 ≠ []) :
    ∀ x ∈ h'.all, x.2 ≠ [] := by
  intro x hx
  rcases List.mem_append.mp (hm.perm.mem_iff.mp hx) with hx | hx
  · exact hlines x hx
  · cases hm with
    | put hne => exact List.mem_singleton.mp hx ▸ hne
    | _ => exact absurd hx List.not_mem_nil

/-- A step that leaves the four strings and the write thread alone. -/
theorem Carries.stay (hc : Carries s h) (hfile : s'.file = s.file) (hbuf : s'.buf = s.buf)
    (hwrite : s'.writeBuf = s.writeBuf) (hfmt : s'.fmtBuf = s.fmtBuf)
    (hidle : s'.writer ≠ .write → h.taken = []) : Carries s' h :=
  ⟨hfile.trans hc.file, hbuf.trans hc.buf, hwrite.trans hc.writeBuf, hfmt.trans hc.fmtBuf, hidle,
    hc.lines⟩

theorem consume_handed (hc : Carries s h) (hs : ConsumeStep s s' es) :
    ∃ h', Carries s' h' ∧ Handed s .consume h h' (formatted es) := by
  cases hs with
  | dequeue hi hq hb heq =>
    rw [heq]
    exact ⟨h, hc.stay rfl rfl rfl rfl hc.idle, .stay⟩
  | @format e line hb hline heq =>
    have hput : Handed s .consume h (h.put (e, line)) [(e, line)] := .put hline
    rw [heq]
    refine ⟨h.put (e, line), ⟨hc.file, hc.buf, hc.writeBuf, ?_, hc.idle, hput.lines hc.lines⟩, hput⟩
    simp [Handoff.put, hc.fmtBuf, textOf]
  | swap hswaps hb heq =>
    have htrade : Handed s .consume h h.trade [] := .trade rfl hswaps
    rw [heq]
    exact ⟨h.trade, ⟨hc.file, hc.buf, hc.fmtBuf, hc.writeBuf, hc.idle, htrade.lines hc.lines⟩,
      htrade⟩
  | move hb hready hhand heq =>
    rw [heq]
    exact ⟨h, hc.stay rfl rfl rfl rfl hc.idle, .stay⟩

theorem write_handed (hc : Carries s h) (hs : s.write = some s') :
    ∃ h', Carries s' h' ∧ Handed s .write h h' [] := by
  cases write_step hs with
  | enter hw | leave hw | again hw | last hw | stopped hw | flush hw =>
    have ht : h.taken = [] := hc.idle (by simp [hw])
    exact ⟨h, hc.stay rfl rfl rfl rfl fun _ => ht, .stay⟩
  | take hw hready =>
    have htake : Handed s .write h h.take [] := .take (hc.idle (by simp [hw]))
    exact ⟨h.take, ⟨hc.file, hc.writeBuf, hc.buf, hc.fmtBuf, by simp, htake.lines hc.lines⟩, htake⟩
  | write hw =>
    have hemit : Handed s .write h h.emit [] := .emit
    refine ⟨h.emit, ⟨?_, rfl, hc.writeBuf, hc.fmtBuf, fun _ => rfl, hemit.lines hc.lines⟩, hemit⟩
    simp [Handoff.emit, hc.file, hc.buf, textOf_append]
  | finalFlush hw =>
    -- the write thread has nothing left here
    have ht : h.taken = [] := hc.idle (by simp [hw])
    have hbuf : s.buf = [] := by simp [hc.buf, ht, textOf]
    exact ⟨h, hc.stay (by simp [hbuf]) rfl rfl rfl fun _ => ht, .stay⟩

theorem step_handed (hc : Carries s h) (hs : s.step date l = some (s', es)) :
    ∃ h', Carries s' h' ∧ Handed s l h h' (formatted es) := by
  cases l with
  | consume => exact consume_handed hc (consume_step hs)
  | write =>
    obtain ⟨s₁, hw, heq⟩ := Option.map_eq_some_iff.mp hs
    obtain ⟨rfl, rfl⟩ := Prod.mk.inj heq
    exact write_handed hc hw
  | _ =>
    obtain ⟨heq, hes⟩ := (aside_step hs (by simp) (by simp)).frame
    rw [heq, hes]
    exact ⟨h, hc.stay rfl rfl rfl rfl hc.idle, .stay⟩

theorem carries_new (queueCapacity : Nat) : Carries (.new queueCapacity) {} :=
  ⟨rfl, rfl, rfl, rfl, fun _ => rfl, fun _ hx => absurd hx List.not_mem_nil⟩

/-! ## The order -/

/-- The condition on a step: a swap finds the previous buffer taken. -/
def TakenFirst (s : Logger) (l : LogLabel) : Prop :=
  l = .consume → s.swaps = true → s.writeBuf = []

instance (s : Logger) : DecidablePred (TakenFirst s) := fun l =>
  inferInstanceAs (Decidable (l = .consume → s.swaps = true → s.writeBuf = []))

/-- Under the condition a step puts a line behind the others, or leaves their order alone. -/
theorem Handed.all_eq (hm : Handed s l h h' xs) (hc : Carries s h) (hok : TakenFirst s l) :
    h'.all = h.all ++ xs := by
  cases hm with
  | stay => rw [List.append_nil]
  | put hx => exact h.all_put _
  | trade hl hswaps =>
    have hgiven : h.given = [] :=
      textOf_eq_nil (fun x hx => hc.lines x (by simp [Handoff.all, hx]))
        (hc.writeBuf.symm.trans (hok hl hswaps))
    rw [h.all_trade hgiven, List.append_nil]
  | take ht => rw [h.all_take ht, List.append_nil]
  | emit => rw [h.all_emit, List.append_nil]

/-- The strings hold the lines in the order in which they were formatted. -/
def Ordered (s : Logger) (tr : List LogEvent) : Prop :=
  ∃ h, Carries s h ∧ h.all = formatted tr

theorem step_ordered (ho : Ordered s tr) (hok : TakenFirst s l)
    (hs : s.step date l = some (s', es)) : Ordered s' (tr ++ es) := by
  obtain ⟨h, hc, hall⟩ := ho
  obtain ⟨h', hc', hm⟩ := step_handed hc hs
  exact ⟨h', hc', by rw [hm.all_eq hc hok, hall, formatted_append]⟩

/-- In a run whose swaps all find the previous buffer taken, the file and the three strings
    are the lines in the order in which they were formatted, so what is written is a prefix. -/
theorem lines_in_order (date : Nat → Bytes) (queueCapacity : Nat) (ls : List LogLabel)
    (s : Logger) (tr : List LogEvent)
    (hok : RunOk (Logger.step date) TakenFirst (.new queueCapacity) ls)
    (hrun : run (Logger.step date) (.new queueCapacity) ls = some (s, tr)) :
    textOf (formatted tr) = s.file ++ s.buf ++ s.writeBuf ++ s.fmtBuf ∧
      s.file <+: textOf (formatted tr) := by
  have hnew : Ordered (.new queueCapacity) [] := ⟨{}, carries_new queueCapacity, rfl⟩
  obtain ⟨h, hc, hall⟩ : Ordered s tr := runOk_induction Ordered
    (fun _ _ _ _ _ ho hok hs => step_ordered ho hok hs) [] hnew hok hrun
  have htext : textOf (formatted tr) = s.file ++ s.buf ++ s.writeBuf ++ s.fmtBuf := by
    rw [← hall, Handoff.all, textOf_append, textOf_append, textOf_append, hc.file, hc.buf,
      hc.writeBuf, hc.fmtBuf]
  refine ⟨htext, ?_⟩
  rw [htext, List.append_assoc, List.append_assoc]
  exact List.prefix_append _ _

/-- A thread logs `e`, and the format thread makes a round with it and goes idle. -/
def logged (e : LogEntry) : List LogLabel :=
  [.tryClaim 0, .publish 0 e] ++ List.replicate 14 .consume

/-- The write thread takes a buffer and writes it. -/
def writeRound : List LogLabel := List.replicate 4 .write

def firstEntry : LogEntry := { message := [97] }

def secondEntry : LogEntry := { message := [98] }

/-- Two lines, and the first is taken before the second is handed over. -/
theorem lines_in_order_two :
    ∃ s tr, run (Logger.step fun _ => []) (.new 2) (.registerThisThread :: logged firstEntry ++
        writeRound ++ logged secondEntry ++ writeRound) = some (s, tr) ∧
      (formatted tr).map Prod.fst = [firstEntry, secondEntry] ∧ s.running = true ∧
      s.file = textOf (formatted tr) ∧ s.file <+: textOf (formatted tr) := by
  have hrun : (run (Logger.step fun _ => []) (.new 2) (.registerThisThread :: logged firstEntry ++
      writeRound ++ logged secondEntry ++ writeRound)).map (fun r =>
        decide ((formatted r.2).map Prod.fst = [firstEntry, secondEntry] ∧ r.1.running = true ∧
          r.1.file = textOf (formatted r.2))) = some true := by
    decide +kernel
  obtain ⟨⟨s, tr⟩, hs, heq⟩ := Option.map_eq_some_iff.mp hrun
  obtain ⟨hfmt, hrunning, hfile⟩ := of_decide_eq_true heq
  exact ⟨s, tr, hs, hfmt, hrunning, hfile,
    (lines_in_order (fun _ => []) 2 _ s tr (by decide +kernel) hs).2⟩

/-- The format thread goes idle twice before the write thread comes to take: the second line
    is written in front of the first. -/
theorem lines_in_order_traded :
    ∃ ls s tr, run (Logger.step fun _ => []) (.new 2) ls = some (s, tr) ∧ s.running = true ∧
      s.file = secondEntry.line [] ∧ ¬ s.file <+: textOf (formatted tr) := by
  have hrun : (run (Logger.step fun _ => []) (.new 2) (.registerThisThread :: logged firstEntry ++
      logged secondEntry ++ writeRound)).map (fun r =>
        decide (r.1.running = true ∧ r.1.file = secondEntry.line [] ∧
          ¬ r.1.file <+: textOf (formatted r.2))) = some true := by
    decide +kernel
  obtain ⟨⟨s, tr⟩, hs, heq⟩ := Option.map_eq_some_iff.mp hrun
  obtain ⟨hrunning, hfile, hnot⟩ := of_decide_eq_true heq
  exact ⟨_, s, tr, hs, hrunning, hfile, hnot⟩

end RocketRpc.Common
