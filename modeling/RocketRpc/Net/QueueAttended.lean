import RocketRpc.Net.AccountSync

/-
  A connection does not leave its write queue behind.

  While `m_write_queued` is set, a drain is under way, queued, or about to be queued
  (`Draining`). For what is in the queue there is a drain, or a sender or the end of a drain
  that is still to look at the flag (`Attended`). Every step keeps this (`step_attended`), so
  a connection at rest has nothing in its queue.
-/

namespace RocketRpc.Net

open RocketRpc.Tcp RocketRpc.Coder

variable {crc : Bytes → UInt32}

/-- The frames of a drain that holds `m_write_queued`. -/
def Frame.drains : Frame → Bool
  | .drain .. | .drainQueue => true
  | _ => false

/-- The frames of a drain behind its store of `false`. -/
def Frame.rechecks : Frame → Bool
  | .drainCheck | .drainArm => true
  | _ => false

/-- A drain is under way, queued, or about to be queued. -/
def Draining (w : World) : Prop :=
  .drain ∈ w.tasks ∨ (∃ f ∈ w.stack, f.drains = true) ∨ ∃ t, w.senders t = .queueing

/-- Somebody is still to look at `m_write_queued`. -/
def Rechecking (w : World) : Prop :=
  (∃ f ∈ w.stack, f.rechecks = true) ∨ ∃ t, w.senders t = .linking ∨ w.senders t = .arming

structure Attended (w : World) : Prop where
  linking : ∀ node ∈ w.conn.writeQueue, node.linked = false → w.senders node.sender = .linking
  flag : w.conn.writeQueued = true → Draining w
  queue : w.conn.writeQueue ≠ [] → Draining w ∨ Rechecking w

/-- At rest nothing is in the queue. -/
theorem Attended.rest {w : World} (h : Attended w) (hstack : w.stack = []) (htasks : w.tasks = [])
    (hsenders : ∀ t, w.senders t = .idle) : w.conn.writeQueue = [] := by
  by_contra hne
  have hnone : ∀ t, w.senders t ≠ .queueing ∧ w.senders t ≠ .linking ∧ w.senders t ≠ .arming :=
    fun t => by simp [hsenders t]
  rcases h.queue hne with (hmem | ⟨f, hf, -⟩ | ⟨t, ht⟩) | ⟨f, hf, -⟩ | ⟨t, ht⟩
  · simp [htasks] at hmem
  · simp [hstack] at hf
  · exact (hnone t).1 ht
  · simp [hstack] at hf
  · exact ht.elim (hnone t).2.1 (hnone t).2.2

/-! ## Steps beside the queue -/

/-- The queue and the senders stay as they are, no drain goes, and nobody sets
    `m_write_queued` without a drain to queue. -/
structure Keeps (w w' : World) : Prop where
  queue : w'.conn.writeQueue = w.conn.writeQueue
  senders : w'.senders = w.senders
  flag : w'.conn.writeQueued = true → w.conn.writeQueued = true ∨ .drainQueue ∈ w'.stack
  tasks : .drain ∈ w.tasks → .drain ∈ w'.tasks
  stack : ∀ f ∈ w.stack, f.drains = true ∨ f.rechecks = true → f ∈ w'.stack

theorem Keeps.draining {w w' : World} (h : Keeps w w') (hw : Draining w) : Draining w' := by
  rcases hw with hmem | ⟨f, hf, hd⟩ | ⟨t, ht⟩
  · exact Or.inl (h.tasks hmem)
  · exact Or.inr (Or.inl ⟨f, h.stack f hf (Or.inl hd), hd⟩)
  · exact Or.inr (Or.inr ⟨t, h.senders ▸ ht⟩)

theorem Keeps.rechecking {w w' : World} (h : Keeps w w') (hw : Rechecking w) :
    Rechecking w' := by
  rcases hw with ⟨f, hf, hr⟩ | ⟨t, ht⟩
  · exact Or.inl ⟨f, h.stack f hf (Or.inr hr), hr⟩
  · exact Or.inr ⟨t, h.senders ▸ ht⟩

theorem Keeps.attended {w w' : World} (h : Keeps w w') (hw : Attended w) : Attended w' := by
  refine ⟨fun node hmem hnot => ?_, fun hflag => ?_, fun hne => ?_⟩
  · rw [h.senders]
    exact hw.linking node (h.queue ▸ hmem) hnot
  · rcases h.flag hflag with hflag | hmem
    · exact h.draining (hw.flag hflag)
    · exact Or.inr (Or.inl ⟨_, hmem, rfl⟩)
  · exact (hw.queue (h.queue ▸ hne)).imp h.draining h.rechecking

/-- A step that takes what is no drain from the stack or the tasks, and goes on beside the
    queue. -/
theorem Aside.keeps {w w₀ w' : World} {es : List Event} (h : Aside w₀ w' es)
    (hconn : w₀.conn = w.conn) (hsenders : w₀.senders = w.senders)
    (htasks : .drain ∈ w.tasks → .drain ∈ w₀.tasks)
    (hstack : ∀ f ∈ w.stack, f.drains = true ∨ f.rechecks = true → f ∈ w₀.stack) :
    Keeps w w' := by
  obtain ⟨fs, hfs, -⟩ := h.stack
  refine ⟨hconn ▸ h.queue, h.senders.trans hsenders, fun hflag => hconn ▸ h.flag hflag,
    fun hmem => h.tasks (htasks hmem), fun f hf hd => ?_⟩
  rw [hfs]
  exact List.mem_append_right _ (hstack f hf hd)

/-- A step beside the queue that takes nothing. -/
theorem Aside.attended {w w' : World} {es : List Event} (h : Aside w w' es) (hw : Attended w) :
    Attended w' :=
  (h.keeps rfl rfl id fun _ hf _ => hf).attended hw

theorem Batches.keeps {w w' : World} {messages : List AbstractProtocol} {es : List Event}
    (h : Batches crc w w' messages es) : Keeps w w' := by
  obtain ⟨fs, hfs, -⟩ := h.stack
  refine ⟨h.queue, h.senders, h.flag, fun hmem => h.tasks hmem, fun f hf _ => ?_⟩
  rw [hfs]
  exact List.mem_append_right _ hf

/-! ## Drains -/

/-- A drain on top of the stack, and the queue as it leaves it. -/
theorem attended_of_drain {w w' : World} (hw : Attended w)
    (hqueue : ∀ node ∈ w'.conn.writeQueue, node ∈ w.conn.writeQueue)
    (hsenders : w'.senders = w.senders) {f : Frame} (hf : f ∈ w'.stack) (hd : f.drains = true) :
    Attended w' := by
  have hdraining : Draining w' := Or.inr (Or.inl ⟨f, hf, hd⟩)
  refine ⟨fun node hmem hnot => ?_, fun _ => hdraining, fun _ => Or.inl hdraining⟩
  rw [hsenders]
  exact hw.linking node (hqueue node hmem) hnot

/-- A drain at its `pop`. In the end it stores `false`, and its re-check is to come. -/
theorem drain_attended {w : World} {stack : List Frame} {round batch : Nat}
    {ms : List AbstractProtocol} (hw : Attended w) (sees : Bool) :
    Attended (({ w with stack } : World).drain crc round batch ms sees).1 := by
  unfold World.drain
  split
  · refine ⟨hw.linking, fun hflag => absurd hflag (by simp [World.push]), fun _ => Or.inr ?_⟩
    exact Or.inl ⟨.drainCheck, List.mem_cons_self, rfl⟩
  split
  · rename_i node rest hpop
    refine attended_of_drain hw (fun node' hmem => ?_) rfl List.mem_cons_self rfl
    obtain ⟨-, hpop⟩ := Option.ite_none_right_eq_some.mp hpop
    have hqueue : w.conn.writeQueue = node :: rest := pop_eq_some hpop
    rw [hqueue]
    exact List.mem_cons_of_mem _ hmem
  · have hb := @sendInLoopBatch_batches crc
      (({ w with stack } : World).push [.drain (round + 1) 0 []]) ms
    have hpushed : Attended (({ w with stack } : World).push [.drain (round + 1) 0 []]) :=
      attended_of_drain hw (fun _ => id) rfl List.mem_cons_self rfl
    exact hb.keeps.attended hpushed

/-- The re-check of a drain. The queue it finds empty has a sender between its exchange and
    its link. -/
theorem drainCheck_attended {w : World} {stack : List Frame} (hw : Attended w)
    (hstack : w.stack = .drainCheck :: stack) :
    Attended ({ w with stack } : World).drainCheck := by
  have hdraining : ∀ fs, Draining w → Draining (({ w with stack } : World).push fs) := by
    intro fs hd
    rcases hd with hmem | ⟨f, hf, hd⟩ | ht
    · exact Or.inl hmem
    · refine Or.inr (Or.inl ⟨f, List.mem_append_right _ ?_, hd⟩)
      rcases List.mem_cons.mp (hstack ▸ hf) with rfl | hf
      · exact absurd hd (by simp [Frame.drains])
      · exact hf
    · exact Or.inr (Or.inr ht)
  unfold World.drainCheck
  split
  · rename_i hempty
    refine ⟨hw.linking, fun hflag => hdraining [] (hw.flag hflag), fun hne => Or.inr (Or.inr ?_)⟩
    cases hq : w.conn.writeQueue with
    | nil => exact absurd hq hne
    | cons node rest =>
      have hnot : node.linked = false := by simpa [MpscQueue.empty, hq] using hempty
      exact ⟨_, Or.inl (hw.linking node (hq ▸ List.mem_cons_self) hnot)⟩
  · have hcheck : Rechecking (({ w with stack } : World).push [.drainArm]) :=
      Or.inl ⟨.drainArm, List.mem_cons_self, rfl⟩
    exact ⟨hw.linking, fun hflag => hdraining _ (hw.flag hflag), fun _ => Or.inr hcheck⟩

/-- The compare-exchange of the re-check: if it fails, a drain is to come. -/
theorem drainArm_attended {w : World} {stack : List Frame} (hw : Attended w)
    (hstack : w.stack = .drainArm :: stack) : Attended ({ w with stack } : World).drainArm := by
  unfold World.drainArm
  split
  · rename_i hflag
    have hdraining : Draining { w with stack } := by
      rcases hw.flag hflag with hmem | ⟨f, hf, hd⟩ | ht
      · exact Or.inl hmem
      · refine Or.inr (Or.inl ⟨f, ?_, hd⟩)
        rcases List.mem_cons.mp (hstack ▸ hf) with rfl | hf
        · exact absurd hd (by simp [Frame.drains])
        · exact hf
      · exact Or.inr (Or.inr ht)
    exact ⟨hw.linking, fun _ => hdraining, fun _ => Or.inl hdraining⟩
  · exact attended_of_drain hw (fun _ => id) rfl List.mem_cons_self rfl

/-- The loop goes on with a frame. -/
theorem resume_attended {w w' : World} {frame : Frame} {stack : List Frame}
    {results : List (Except Errno Nat)} {sees : Bool} {es : List Event} (hw : Attended w)
    (hstack : w.stack = frame :: stack)
    (hs : { w with stack }.resume crc results sees frame = some (w', es)) : Attended w' := by
  cases hframe : frame.drains || frame.rechecks with
  | false =>
    have hnot : ∀ r b ms, frame ≠ .drain r b ms := by
      rintro r b ms rfl
      simp [Frame.drains] at hframe
    have hkeeps : Keeps w w' := by
      refine (resume_aside hnot hs).keeps rfl rfl id fun f hf hd => ?_
      rcases List.mem_cons.mp (hstack ▸ hf) with rfl | hf
      · simp only [Bool.or_eq_false_iff] at hframe
        exact absurd hd (by simp [hframe])
      · exact hf
    exact hkeeps.attended hw
  | true =>
    cases frame with
    | drain round batch ms =>
      obtain ⟨rfl, -⟩ := Prod.mk.inj (Option.some.inj hs)
      exact drain_attended hw sees
    | drainCheck =>
      obtain ⟨rfl, -⟩ := Prod.mk.inj (Option.some.inj hs)
      exact drainCheck_attended hw hstack
    | drainArm =>
      obtain ⟨rfl, -⟩ := Prod.mk.inj (Option.some.inj hs)
      exact drainArm_attended hw hstack
    | drainQueue =>
      obtain ⟨rfl, -⟩ := Prod.mk.inj (Option.some.inj hs)
      have htask : Draining ({ w with stack } : World).drainQueue :=
        Or.inl (List.mem_append_right _ (List.mem_singleton_self _))
      exact ⟨hw.linking, fun _ => htask, fun _ => Or.inl htask⟩
    | _ => exact absurd hframe (by simp [Frame.drains, Frame.rechecks])

/-! ## Senders -/

/-- A sender goes from a place to another; the senders that matter are those behind their
    exchange. -/
theorem Draining.setSender {w w' : World} {t : ThreadId} {sender : Sender} (h : Draining w)
    (ht : w.senders t ≠ .queueing) (hstack : w'.stack = w.stack) (htasks : w.tasks ⊆ w'.tasks)
    (hsenders : w'.senders = w.senders) : Draining (w'.setSender t sender) := by
  rcases h with hmem | ⟨f, hf, hd⟩ | ⟨t', ht'⟩
  · exact Or.inl (htasks hmem)
  · exact Or.inr (Or.inl ⟨f, by rw [World.setSender, hstack]; exact hf, hd⟩)
  · refine Or.inr (Or.inr ⟨t', ?_⟩)
    have hne : t' ≠ t := by
      rintro rfl
      exact ht ht'
    simpa [World.setSender, hne, hsenders] using ht'

/-- Another sender's node that is half pushed is as it was. -/
theorem linking_setSender {w w' : World} {t : ThreadId} {sender : Sender} (hw : Attended w)
    (ht : w.senders t ≠ .linking) (hqueue : w'.conn.writeQueue = w.conn.writeQueue)
    (hsenders : w'.senders = w.senders) :
    ∀ node ∈ (w'.setSender t sender).conn.writeQueue, node.linked = false →
      (w'.setSender t sender).senders node.sender = .linking := by
  intro node hmem hnot
  have hold := hw.linking node (hqueue ▸ hmem) hnot
  have hne : node.sender ≠ t := by
    intro heq
    exact ht (heq ▸ hold)
  simpa [World.setSender, hne, hsenders] using hold

/-- A thread goes on, and a drain is under way. -/
theorem attended_setSender {w w' : World} {t : ThreadId} {sender : Sender} (hw : Attended w)
    (ht : w.senders t ≠ .linking) (hqueue : w'.conn.writeQueue = w.conn.writeQueue)
    (hsenders : w'.senders = w.senders) (hd : Draining (w'.setSender t sender)) :
    Attended (w'.setSender t sender) :=
  ⟨linking_setSender hw ht hqueue hsenders, fun _ => hd, fun _ => Or.inl hd⟩

/-- Another thread takes a step. -/
theorem foreign_attended {w w' : World} {t : ThreadId} {f : Foreign} (hw : Attended w)
    (hs : w.foreign t (w.senders t) f = some w') : Attended w' := by
  generalize ht : w.senders t = sender at hs
  have hkeeps : ∀ {v : World}, v.conn.writeQueue = w.conn.writeQueue → v.senders = w.senders →
      v.conn.writeQueued = w.conn.writeQueued → (.drain ∈ w.tasks → .drain ∈ v.tasks) →
      v.stack = w.stack → Attended v := fun hqueue hsenders hflag htasks hstack =>
    Keeps.attended ⟨hqueue, hsenders, fun h => Or.inl (hflag ▸ h), htasks,
      fun _ hf _ => hstack ▸ hf⟩ hw
  cases foreignSteps_of_foreign hs with
  | ignored | rejected => exact hw
  | entered message hrej =>
    have hd : Draining w → Draining (w.setSender t (.pushing message)) := fun hd =>
      hd.setSender (by simp [ht]) rfl (List.Subset.refl _) rfl
    refine ⟨linking_setSender hw (by simp [ht]) rfl rfl, fun hf => hd (hw.flag hf),
      fun hne => (hw.queue hne).imp hd fun hr => hr.imp id ?_⟩
    rintro ⟨t', ht'⟩
    have hne : t' ≠ t := by
      rintro rfl
      simp [ht] at ht'
    exact ⟨t', by simpa [World.setSender, hne] using ht'⟩
  | shutdown => exact hkeeps rfl rfl rfl (List.mem_append_left _) rfl
  | incrInFlight | decrInFlight => exact hkeeps rfl rfl rfl id rfl
  | pushed message =>
    refine ⟨fun node hmem hnot => ?_, fun hf => ?_, fun _ => Or.inr (Or.inr ⟨t, Or.inl ?_⟩)⟩
    · rcases List.mem_append.mp hmem with hmem | hmem
      · exact linking_setSender hw (by simp [ht]) rfl rfl node hmem hnot
      · rw [List.mem_singleton.mp hmem]
        exact Function.update_self t _ _
    · exact (hw.flag hf).setSender (by simp [ht]) rfl (List.Subset.refl _) rfl
    · exact Function.update_self t _ _
  | linked =>
    refine ⟨fun node hmem hnot => ?_, fun hf => ?_, fun _ => Or.inr (Or.inr ⟨t, Or.inr ?_⟩)⟩
    · obtain ⟨node, hold, rfl⟩ := List.mem_map.mp hmem
      unfold World.link at hnot ⊢
      split at hnot
      · exact absurd hnot (by simp)
      · rename_i hne
        rw [if_neg hne]
        simpa [World.setSender, hne] using hw.linking node hold hnot
    · exact (hw.flag hf).setSender (by simp [ht]) rfl (List.Subset.refl _) rfl
    · exact Function.update_self t _ _
  | flagSet hflag =>
    exact attended_setSender hw (by simp [ht]) rfl rfl
      ((hw.flag hflag).setSender (by simp [ht]) rfl (List.Subset.refl _) rfl)
  | armed hflag =>
    exact attended_setSender hw (by simp [ht]) rfl rfl
      (Or.inr (Or.inr ⟨t, Function.update_self t _ _⟩))
  | queued =>
    exact attended_setSender hw (by simp [ht]) rfl rfl
      (Or.inl (List.mem_append_right _ (List.mem_singleton_self _)))

/-! ## Steps -/

theorem call_attended {w : World} (hw : Attended w) (c : Call) :
    Attended (w.call crc c).1 := by
  cases c with
  | send message =>
    cases message with
    | none => exact hw
    | some message =>
      simp only [World.call]
      split
      · exact hw
      · exact (sendInLoopBatch_batches w [message]).keeps.attended hw
  | shutdown => exact (shutdownInLoop_aside w).attended hw
  | connectEstablished => exact (connectEstablished_aside w).attended hw
  | connectInProgress cb => exact (connectInProgress_aside w cb).attended hw
  | connectDestroyed => exact (close_aside w .destroyed).attended hw
  | incrInFlight | decrInFlight | setDirectOutputFlush _ =>
    exact ⟨hw.linking, hw.flag, hw.queue⟩

/-- Every step keeps the queue attended. -/
theorem step_attended {w w' : World} {l : Label} {es : List Event} (hw : Attended w)
    (hs : w.step crc l = some (w', es)) : Attended w' := by
  cases acts_of_step hs with
  | read hstack hcb hread => exact (handleRead_aside hread).attended hw
  | unread | unwritten | unfailed => exact hw
  | write soError hstack hcb => exact (handleWrite_aside w).attended hw
  | finishWrite soError hstack hcb | finishError soError hstack hcb =>
    exact (finish_aside w _ soError).attended hw
  | fail soError hstack hcb => exact (handleClose_aside w .fdError).attended hw
  | @task task tasks hstack htasks =>
    by_cases hdrain : task = .drain
    · subst hdrain
      have hmem : .drain 0 0 [] ∈ (({ w with tasks } : World).runTask .drain).stack :=
        List.mem_cons_self
      exact attended_of_drain hw (fun _ => id) rfl hmem rfl
    · have hkeeps : Keeps w (({ w with tasks } : World).runTask task) :=
        (runTask_aside { w with tasks } task).keeps rfl rfl (by simp [htasks, Ne.symm hdrain])
          fun _ hf _ => hf
      exact hkeeps.attended hw
  | call c huser => exact call_attended hw c
  | @returns stack hstack =>
    have hkeeps : Keeps w { w with stack } := by
      refine (Aside.refl _).keeps rfl rfl id fun f hf hd => ?_
      rcases List.mem_cons.mp (hstack ▸ hf) with rfl | hf
      · exact absurd hd (by simp [Frame.drains, Frame.rechecks])
      · exact hf
    exact hkeeps.attended hw
  | resume hstack hresume => exact resume_attended hw hstack hresume
  | foreign hforeign => exact foreign_attended hw hforeign

theorem attended_new {w : World} (hqueue : w.conn.writeQueue = [])
    (hflag : w.conn.writeQueued = false) : Attended w :=
  ⟨by simp [hqueue], fun h => absurd (hflag.symm.trans h) (by simp), fun h => absurd hqueue h⟩

end RocketRpc.Net
