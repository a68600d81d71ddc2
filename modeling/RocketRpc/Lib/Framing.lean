import RocketRpc.Lib.StreamScan

/-
  A stream of frames carries a queue of messages.

  A `Framing` is a decoder with the text of each message, which it reads back in front of
  anything. The reader of a stream holds the part that the decoder still waits with, and the
  rest is on its way; `Carries` says which messages these two are. A writer puts a message at
  the end of the queue (`Carries.push`), and however much of the stream a reader takes, it
  takes messages off the front (`Carries.pull`); when nothing is on its way any more, the
  queue is empty (`Carries.drained`). So a reader that comes to any part of what was written
  has read a first part of the messages, without an error (`scan_part`).
-/

namespace StreamScan

universe u v

variable {α : Type u} {β : Type v}

structure Framing (α : Type u) (β : Type v) where
  decoder : Decoder α β
  write : β → List α
  /-- The messages that have a text. -/
  valid : β → Prop
  verdict_write : ∀ m rest, valid m →
    decoder.verdict (write m ++ rest) = .emit m (write m).length

/-- The reader holds `held`, and `wire` is on its way: together the messages `ms`. -/
structure Carries (f : Framing α β) (held wire : List α) (ms : List β) : Prop where
  waits : f.decoder.verdict held = .wait
  messages : (scan f.decoder (held ++ wire)).messages = ms
  rejected : (scan f.decoder (held ++ wire)).rejected = none
  residue : (scan f.decoder (held ++ wire)).residue = []

variable {f : Framing α β} {held wire : List α} {ms : List β}

theorem carries_nil : Carries f [] [] [] := by
  have hwait := verdict_nil f.decoder
  have hscan := scan_wait hwait
  refine ⟨hwait, ?_, ?_, ?_⟩ <;> rw [List.append_nil, hscan]
  rfl

theorem scan_write {m : β} (hm : f.valid m) (rest : List α) :
    scan f.decoder (f.write m ++ rest) =
      ((scan f.decoder rest).shift (f.write m).length).push ⟨0, (f.write m).length, m⟩ := by
  rw [scan_emit (f.verdict_write m rest hm), List.drop_left]

/-- Every message takes something of the stream. -/
theorem length_messages_le (d : Decoder α β) (xs : List α) :
    (scan d xs).messages.length + (scan d xs).residue.length ≤ xs.length := by
  induction xs using scan_induction d with
  | wait xs h => simp [scan_wait h, Result.messages]
  | skip xs h ih =>
    rw [scan_skip h, Result.messages_shift, Result.residue_shift]
    rw [List.length_drop] at ih
    omega
  | emit xs m n h ih =>
    have hadv := advance_of h (by simp)
    simp only [Verdict.size] at hadv
    rw [scan_emit h, Result.messages_push, Result.messages_shift, Result.residue_push,
      Result.residue_shift, List.length_cons]
    rw [List.length_drop] at ih
    omega
  | reject xs n h => simp [scan_reject h, Result.messages]

/-- A scan goes on with what the scan of a first part has left. -/
theorem scan_continues {d : Decoder α β} {xs : List α} (ys : List α)
    (h : (scan d xs).rejected = none) :
    (scan d (xs ++ ys)).messages =
        (scan d xs).messages ++ (scan d ((scan d xs).residue ++ ys)).messages ∧
      ((scan d (xs ++ ys)).rejected = none ↔
        (scan d ((scan d xs).residue ++ ys)).rejected = none) ∧
      (scan d (xs ++ ys)).residue = (scan d ((scan d xs).residue ++ ys)).residue := by
  have hscan := scan_append ys h
  refine ⟨?_, ?_, ?_⟩
  · rw [hscan, Result.messages_prepend, Result.messages_shift]
    rfl
  · rw [hscan]
    exact Result.rejected_shift_eq_none _ _
  · rw [hscan]
    rfl

/-- One more message is written. -/
theorem Carries.push (h : Carries f held wire ms) {m : β} (hm : f.valid m) :
    Carries f held (wire ++ f.write m) (ms ++ [m]) := by
  have hscan := scan_append (f.write m) h.rejected
  have hlast := scan_write hm []
  rw [List.append_nil, scan_nil] at hlast
  rw [h.residue, List.nil_append, hlast, List.append_assoc] at hscan
  refine ⟨h.waits, ?_, ?_, ?_⟩
  · rw [hscan, Result.messages_prepend, Result.messages_shift, Result.messages_push,
      Result.messages_shift]
    exact congrArg (· ++ [m]) h.messages
  · rw [hscan]
    rfl
  · rw [hscan]
    rfl

/-- The reader takes the next part of the stream: messages off the front of the queue. -/
theorem Carries.pull {part : List α} (h : Carries f held (part ++ wire) ms) :
    (scan f.decoder (held ++ part)).rejected = none ∧
      ∃ rest, ms = (scan f.decoder (held ++ part)).messages ++ rest ∧
        Carries f (scan f.decoder (held ++ part)).residue wire rest := by
  have hrej : (scan f.decoder (held ++ part)).rejected = none := by
    by_contra hne
    have hall := h.rejected
    rw [← List.append_assoc, scan_append_rejected wire hne] at hall
    exact hne hall
  have hscan := scan_append wire hrej
  rw [List.append_assoc] at hscan
  have hmsgs := h.messages
  have hrest := h.rejected
  have hres := h.residue
  rw [hscan] at hmsgs hrest hres
  refine ⟨hrej, _, ?_, ⟨residue_waits hrej, rfl, ?_, hres⟩⟩
  · rw [← hmsgs, Result.messages_prepend, Result.messages_shift]
    rfl
  · exact (Result.rejected_shift_eq_none _ _).mp hrest

/-- More messages are written, one after another. -/
theorem Carries.pushAll (h : Carries f held wire ms) {ns : List β} (hns : ∀ n ∈ ns, f.valid n) :
    Carries f held (wire ++ ns.flatMap f.write) (ms ++ ns) := by
  induction ns generalizing wire ms with
  | nil => simpa using h
  | cons n ns ih =>
    have hmore := ih (h.push (hns n List.mem_cons_self)) fun m hm =>
      hns m (List.mem_cons_of_mem n hm)
    simpa only [List.flatMap_cons, List.append_assoc, List.singleton_append] using hmore

/-- Nothing is on its way: nothing is held, and the queue is empty. -/
theorem Carries.drained (h : Carries f held [] ms) : held = [] ∧ ms = [] := by
  have hscan := scan_wait h.waits
  have hmsgs := h.messages
  have hres := h.residue
  rw [List.append_nil, hscan] at hmsgs hres
  exact ⟨hres, hmsgs.symm⟩

/-- What is written is read back. -/
theorem scan_writes (hms : ∀ m ∈ ms, f.valid m) :
    (scan f.decoder (ms.flatMap f.write)).messages = ms :=
  (carries_nil.pushAll hms).messages

/-- Of what is written, any part is read without an error, up to a message. -/
theorem scan_part {part : List α} (hms : ∀ m ∈ ms, f.valid m)
    (hpart : part <+: ms.flatMap f.write) :
    (scan f.decoder part).rejected = none ∧ (scan f.decoder part).messages <+: ms := by
  obtain ⟨rest, hrest⟩ := hpart
  have hcarries : Carries f [] (part ++ rest) ms := hrest ▸ carries_nil.pushAll hms
  obtain ⟨hrejected, left, hms, -⟩ := hcarries.pull
  exact ⟨hrejected, left, hms.symm⟩

end StreamScan
