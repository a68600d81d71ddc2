import RocketRpc.Tcp.BoundedBuffer
import RocketRpc.Net.ArmedOutput
import RocketRpc.Net.Delivery

/-
  The input buffer of a connection.

  A pass of the loop of `handleRead` makes room and reads. `checkedPass` does so on the raw buffer,
  with no sum, product or copy that could go wrong unnoticed; on a bounded buffer it is what
  the loop does (`checkedPass_eq`), and leaves a bounded buffer. `RoundKept` says that of all
  passes of a round. `decode` only consumes, and nothing else touches the input buffer, so it
  is bounded in every reachable state (`run_bounded`).

  `receive_path` puts this together: no pass of a round overruns the buffer, and a round that does
  not close the connection decodes the old residue and everything it has read.
-/

namespace RocketRpc.Net

open RocketRpc.Tcp RocketRpc.Coder Machine

variable {crc : Bytes → UInt32}

/-! ## A pass -/

/-- The indices are in order, and between `kPrependSize` and the maximum. -/
structure InLimits (b : RawBuffer) : Prop where
  prepend_le_read : kPrependSize ≤ b.readIndex
  read_le_write : b.readIndex ≤ b.writeIndex
  write_le_size : b.writeIndex ≤ b.buffer.length
  size_le : b.buffer.length ≤ kMaxBufferSize

theorem inLimits {b : TcpBuffer} (h : b.Bounded) : InLimits b.raw :=
  ⟨h.prepend_le_read, b.read_le_write, b.write_le_size, h.size_le⟩

/-- The size that `handleRead` makes a full buffer. -/
def grownSize (b : RawBuffer) : Nat := min (b.buffer.length * 2) kMaxBufferSize

/-- The room that `handleRead` makes before a read. -/
def checkedMakeReadable (b : RawBuffer) : Option RawBuffer := do
  let writable ← b.checkedWriteAble
  if writable = 0 then do
    let twice ← Checked.mul 64 b.buffer.length 2
    b.checkedResizeBuffer (min twice kMaxBufferSize)
  else some b

/-- One pass of the loop of `handleRead`. -/
def checkedPass (b : RawBuffer) (result : Except Errno Bytes) : Option RawBuffer := do
  let room ← checkedMakeReadable b
  let r ← room.checkedReadFromFd result
  some r.2

/-- The buffer behind the passes with these results. -/
def checkedPasses (b : RawBuffer) (results : List (Except Errno Bytes)) : Option RawBuffer :=
  results.foldlM checkedPass b

/-- What `handleRead` makes the buffer has room for its readable bytes. -/
theorem le_grownSize {b : TcpBuffer} (hb : b.Bounded) :
    kPrependSize + b.readAble ≤ grownSize b.raw := by
  have hlimit := hb.readAble_add_le
  have hread := hb.prepend_le_read
  have h1 := b.read_le_write
  have h2 := b.write_le_size
  unfold grownSize
  simp only [TcpBuffer.readAble, TcpBuffer.raw_buffer] at hlimit ⊢
  omega

theorem makeReadable_bounded {b : TcpBuffer} (hb : b.Bounded) : (makeReadable b).Bounded := by
  unfold makeReadable
  split
  · exact hb.resizeBuffer (Nat.min_le_right _ _)
  · exact hb

theorem checkedMakeReadable_eq {b : TcpBuffer} (hb : b.Bounded) :
    checkedMakeReadable b.raw = some (makeReadable b).raw := by
  have hmax : kMaxBufferSize = 67108864 := rfl
  have hsize := hb.size_le
  have htwice : Checked.mul 64 b.raw.buffer.length 2 = some (b.raw.buffer.length * 2) :=
    Checked.mul_of_lt (by rw [TcpBuffer.raw_buffer]; omega)
  unfold checkedMakeReadable makeReadable
  rw [TcpBuffer.checkedWriteAble_eq]
  simp only [Option.bind_eq_bind, Option.bind_some, htwice]
  split
  · exact TcpBuffer.checkedResizeBuffer_eq hb (le_grownSize hb)
  · rfl

theorem readvFits_iff {b : TcpBuffer} {result : Except Errno Bytes} :
    readvFits b result = true ↔ ∀ data, result = .ok data → data.length ≤ b.readvLimit := by
  cases result with
  | error e => simp [readvFits]
  | ok data => simp [readvFits]

/-- A pass is the one of the loop. -/
theorem checkedPass_eq {b : TcpBuffer} (hb : b.Bounded) {result : Except Errno Bytes}
    (hfits : readvFits (makeReadable b) result = true) :
    checkedPass b.raw result = some ((makeReadable b).readFromFd result).2.raw := by
  unfold checkedPass
  rw [checkedMakeReadable_eq hb, Option.bind_eq_bind, Option.bind_some,
    TcpBuffer.checkedReadFromFd_eq (makeReadable_bounded hb) (readvFits_iff.mp hfits)]
  rfl

/-! ## A round -/

/-- A pass from `b` overruns nothing: the size that a full buffer is made has room for the readable
    bytes, and the buffer is within its limits behind `resizeBuffer` and behind `readFromFd`. -/
structure PassKept (b : RawBuffer) (result : Except Errno Bytes) : Prop where
  start : InLimits b
  resized : b.checkedWriteAble = some 0 → kPrependSize + b.readAble ≤ grownSize b
  room : ∃ room, checkedMakeReadable b = some room ∧ InLimits room
  done : ∃ b', checkedPass b result = some b' ∧ InLimits b'

theorem passKept {b : TcpBuffer} (hb : b.Bounded) {result : Except Errno Bytes}
    (hfits : readvFits (makeReadable b) result = true) : PassKept b.raw result := by
  have hroom := makeReadable_bounded hb
  refine ⟨inLimits hb, fun _ => ?_, ⟨_, checkedMakeReadable_eq hb, inLimits hroom⟩,
    ⟨_, checkedPass_eq hb hfits, inLimits (hroom.readFromFd result)⟩⟩
  rw [TcpBuffer.raw_readAble hb.allocated]
  exact le_grownSize hb

/-- The passes of a round overrun nothing, wherever it is. -/
def RoundKept (b : RawBuffer) (results : List (Except Errno Bytes)) : Prop :=
  ∀ before result after, results = before ++ result :: after →
    ∃ b', checkedPasses b before = some b' ∧ PassKept b' result

theorem roundKept_nil (b : RawBuffer) : RoundKept b [] := by
  intro before result after h
  exact absurd h (by simp)

theorem roundKept_cons {b b₁ : RawBuffer} {result : Except Errno Bytes}
    {results : List (Except Errno Bytes)} (hkept : PassKept b result)
    (hpass : checkedPass b result = some b₁) (hrest : RoundKept b₁ results) :
    RoundKept b (result :: results) := by
  intro before result' after h
  cases before with
  | nil =>
    obtain ⟨rfl, -⟩ := List.cons.inj h
    exact ⟨b, rfl, hkept⟩
  | cons first before =>
    obtain ⟨rfl, htail⟩ := List.cons.inj h
    obtain ⟨b', hpasses, hkept'⟩ := hrest before result' after htail
    refine ⟨b', ?_, hkept'⟩
    rw [checkedPasses, List.foldlM_cons, hpass]
    exact hpasses

/-- An error of `readv` that ends the connection. -/
def fatalError (e : Errno) : Prop := e ≠ .EINTR ∧ e ≠ .EAGAIN ∧ e ≠ .EWOULDBLOCK

/-- Why a round closes the connection: the end of the file, an error of `readv`, or more bytes
    than the buffer can hold behind those that it holds. -/
def RoundCloses (residue : Bytes) (results : List (Except Errno Bytes)) : Prop :=
  .ok [] ∈ results ∨ (∃ e, .error e ∈ results ∧ fatalError e) ∨
    kMaxBufferSize < kPrependSize + (residue ++ dataOf results).length

theorem roundCloses_cons {r r' : Bytes} {result : Except Errno Bytes}
    {results : List (Except Errno Bytes)} (h : RoundCloses r' results)
    (hsame : r' ++ dataOf results = r ++ dataOf (result :: results)) :
    RoundCloses r (result :: results) := by
  rcases h with heof | ⟨e, he, hfatal⟩ | hlong
  · exact Or.inl (List.mem_cons_of_mem _ heof)
  · exact Or.inr (Or.inl ⟨e, List.mem_cons_of_mem _ he, hfatal⟩)
  · exact Or.inr (Or.inr (hsame ▸ hlong))

/-- What the loop does with the first result: the pass is one that fits, and the loop goes on with
    all bytes that came, or ends. -/
theorem readLoop_cons {b b' : TcpBuffer} {result : Except Errno Bytes}
    {results : List (Except Errno Bytes)} {ended : ReadEnd}
    (h : readLoop b (result :: results) = some (ended, b')) :
    readvFits (makeReadable b) result = true ∧
      ((readLoop ((makeReadable b).readFromFd result).2 results = some (ended, b') ∧
          ((makeReadable b).readFromFd result).2.readable ++ dataOf results =
            b.readable ++ dataOf (result :: results)) ∨
        (results = [] ∧ ((makeReadable b).readFromFd result).2 = b' ∧
          ∀ e, ended = .failed e →
            ((makeReadable b).readFromFd result).1 = .error e ∧ fatalError e)) := by
  rw [readLoop] at h
  split at h
  · exact absurd h (by simp)
  rename_i hfits
  refine ⟨by simpa using hfits, ?_⟩
  cases hpair : (makeReadable b).readFromFd result with
  | mk r b₁ =>
    rw [hpair] at h
    cases r with
    | ok n =>
      dsimp only at h
      cases result with
      | error e => exact absurd (congrArg Prod.fst hpair) (by simp [readFromFd_error])
      | ok data =>
        have hread := (TcpBuffer.readFromFd_ok (congrArg Prod.fst hpair)).2
        rw [hpair, makeReadable_readable] at hread
        split at h
        · split at h
          · obtain ⟨rfl, rfl⟩ : ReadEnd.closed = ended ∧ b₁ = b' := by simpa using h
            exact Or.inr ⟨‹_›, rfl, by simp⟩
          · exact absurd h (by simp)
        split at h
        · split at h
          · obtain ⟨rfl, rfl⟩ : ReadEnd.drained = ended ∧ b₁ = b' := by simpa using h
            exact Or.inr ⟨‹_›, rfl, by simp⟩
          · exact absurd h (by simp)
        · exact Or.inl ⟨h, by rw [hread, dataOf, List.append_assoc]⟩
    | error e =>
      dsimp only at h
      split at h
      · rename_i hagain
        cases result with
        | error e' =>
          obtain rfl : makeReadable b = b₁ := congrArg Prod.snd hpair
          exact Or.inl ⟨h, by rw [makeReadable_readable, dataOf]⟩
        | ok data =>
          have htoo := (readFromFd_tooLong (congrArg Prod.fst hpair)).1
          exact absurd (hagain.symm.trans htoo) (by simp)
      rename_i hagain
      split at h
      · split at h
        · obtain ⟨rfl, rfl⟩ : ReadEnd.drained = ended ∧ b₁ = b' := by simpa using h
          exact Or.inr ⟨‹_›, rfl, by simp⟩
        · exact absurd h (by simp)
      rename_i hblock
      split at h
      · obtain ⟨rfl, rfl⟩ : ReadEnd.failed e = ended ∧ b₁ = b' := by simpa using h
        refine Or.inr ⟨‹_›, rfl, fun e' he => ?_⟩
        obtain rfl := ReadEnd.failed.inj he
        exact ⟨rfl, hagain, fun hno => hblock (Or.inl hno), fun hno => hblock (Or.inr hno)⟩
      · exact absurd h (by simp)

/-- A loop that fails has met an error, or too many bytes. -/
theorem readLoop_failed {b b' : TcpBuffer} {results : List (Except Errno Bytes)} {e : Errno}
    (h : readLoop b results = some (.failed e, b')) : RoundCloses b.readable results := by
  induction results generalizing b with
  | nil => simp [readLoop] at h
  | cons result results ih =>
    obtain ⟨-, ⟨hrest, hsame⟩ | ⟨-, -, hfail⟩⟩ := readLoop_cons h
    · exact roundCloses_cons (ih hrest) hsame
    obtain ⟨hread, hfatal⟩ := hfail e rfl
    cases result with
    | error e' =>
      obtain rfl := Except.error.inj hread
      exact Or.inr (Or.inl ⟨_, List.mem_cons_self, hfatal⟩)
    | ok data =>
      refine Or.inr (Or.inr (Nat.lt_of_not_le fun hle => ?_))
      rw [List.length_append, dataOf, List.length_append] at hle
      have hfits : kPrependSize + (makeReadable b).readAble + data.length ≤ kMaxBufferSize := by
        rw [← TcpBuffer.length_readable, makeReadable_readable]
        omega
      rw [TcpBuffer.readFromFd_of_le hfits] at hread
      exact absurd hread (by simp)

/-- The loop takes the passes that the raw buffer takes, and they overrun nothing. -/
theorem readLoop_kept {b b' : TcpBuffer} (hb : b.Bounded)
    {results : List (Except Errno Bytes)} {ended : ReadEnd}
    (h : readLoop b results = some (ended, b')) :
    RoundKept b.raw results ∧ checkedPasses b.raw results = some b'.raw ∧ b'.Bounded := by
  induction results generalizing b with
  | nil => simp [readLoop] at h
  | cons result results ih =>
    obtain ⟨hfits, hnext⟩ := readLoop_cons h
    have hpass := checkedPass_eq hb hfits
    have hb₁ := (makeReadable_bounded hb).readFromFd result
    rw [checkedPasses, List.foldlM_cons, hpass]
    rcases hnext with ⟨hrest, -⟩ | ⟨rfl, rfl, -⟩
    · obtain ⟨hround, hpasses, hb'⟩ := ih hb₁ hrest
      exact ⟨roundKept_cons (passKept hb hfits) hpass hround, hpasses, hb'⟩
    · exact ⟨roundKept_cons (passKept hb hfits) hpass (roundKept_nil _), rfl, hb₁⟩

/-! ## Every reachable state -/

theorem consumed_bounded {b : TcpBuffer} (hb : b.Bounded) (ns : List Nat) :
    (ns.foldl TcpBuffer.moveReadIndex b).Bounded := by
  induction ns generalizing b with
  | nil => exact hb
  | cons n ns ih => exact ih (hb.consume n)

/-- `decode` consumes, and does nothing else to the buffer. -/
theorem decode_consumes (b : TcpBuffer) :
    ∃ ns : List Nat, (decode crc b).2 = ns.foldl TcpBuffer.moveReadIndex b := by
  suffices h : ∀ messages, ∃ ns : List Nat,
      (decodeLoop crc b messages).2 = ns.foldl TcpBuffer.moveReadIndex b from h []
  intro messages
  induction b, messages using decodeLoop.induct crc with
  | case1 b messages hempty => exact ⟨[], by rw [decodeLoop, if_pos hempty]; rfl⟩
  | case2 b messages hsome n hpass => exact ⟨[n], by rw [decodeLoop, if_neg hsome, hpass]; rfl⟩
  | case3 b messages hsome n hpass ih =>
    obtain ⟨ns, hns⟩ := ih
    exact ⟨n :: ns, by rw [decodeLoop, if_neg hsome, hpass]; exact hns⟩
  | case4 b messages hsome n reason hpass =>
    exact ⟨[n], by rw [decodeLoop, if_neg hsome, hpass]; rfl⟩
  | case5 b messages hsome n msg hpass ih =>
    obtain ⟨ns, hns⟩ := ih
    exact ⟨n :: ns, by rw [decodeLoop, if_neg hsome, hpass]; exact hns⟩

theorem decode_bounded {b : TcpBuffer} (hb : b.Bounded) : (decode crc b).2.Bounded := by
  obtain ⟨ns, hns⟩ := @decode_consumes crc b
  rw [hns]
  exact consumed_bounded hb ns

theorem decodeInput_bounded {w : World} (hb : w.conn.inBuffer.Bounded) :
    (w.decodeInput crc).1.conn.inBuffer.Bounded := by
  have hdecoded := @decode_bounded crc _ hb
  unfold World.decodeInput
  dsimp only
  split
  · rw [(handleClose_buffers _ _).1]
    exact hdecoded
  split
  · split
    · exact hdecoded
    · exact hdecoded
  · exact hdecoded

theorem handleRead_bounded {w w' : World} {results : List (Except Errno Bytes)} {es : List Event}
    (hb : w.conn.inBuffer.Bounded) (h : w.handleRead crc results = some (w', es)) :
    w'.conn.inBuffer.Bounded := by
  unfold World.handleRead at h
  split at h
  · obtain ⟨rfl, -⟩ := Prod.mk.inj (Option.some.inj h)
    exact hb
  obtain ⟨⟨ended, b⟩, hloop, heq⟩ := Option.map_eq_some_iff.mp h
  have hb' := (readLoop_kept hb hloop).2.2
  cases ended with
  | failed e =>
    have hsame : ((w.setInBuffer b).handleClose (.readError e)).1 = w' := congrArg Prod.fst heq
    rw [← hsame, (handleClose_buffers _ _).1]
    exact hb'
  | closed =>
    have hsame : ((w.setInBuffer b).handleClose .eof).1 = w' := congrArg Prod.fst heq
    rw [← hsame, (handleClose_buffers _ _).1]
    exact hb'
  | drained =>
    have hsame : ((w.setInBuffer b).decodeInput crc).1 = w' := congrArg Prod.fst heq
    exact hsame ▸ decodeInput_bounded (w := w.setInBuffer b) hb'

theorem step_bounded {w w' : World} {l : Label} {es : List Event} (hb : w.conn.inBuffer.Bounded)
    (h : w.step crc l = some (w', es)) : w'.conn.inBuffer.Bounded := by
  rcases step_cases h with ⟨results, -, -, hread⟩ | ⟨-, heffect⟩
  · exact handleRead_bounded hb hread
  · rw [heffect.outputOnly.inBuffer]
    exact hb

theorem run_bounded {callbacks : Callbacks} {highWaterMark : Nat} {ls : List Label} {w : World}
    {es : List Event}
    (hrun : run (World.step crc) (World.new callbacks highWaterMark) ls = some (w, es)) :
    w.conn.inBuffer.Bounded := by
  refine run_invariant (fun w => w.conn.inBuffer.Bounded) ?_ ?_ hrun
  · intro s l s' es hb hstep
    exact step_bounded hb hstep
  · exact TcpBuffer.Bounded.new (by decide)

/-! ## Main result -/

/-- In every reachable state the input buffer is within its limits. A round of `handleRead` on an
    open connection overruns it at no point: not where it makes room, not where it reads, and
    not where the decoder consumes. The round decodes what was left and all it has read, which
    the buffer can hold, or it closes the connection, for one of the three reasons. -/
theorem receive_path {callbacks : Callbacks} {highWaterMark : Nat} {ls : List Label} {w : World}
    {es : List Event}
    (hrun : run (World.step crc) (World.new callbacks highWaterMark) ls = some (w, es)) :
    InLimits w.conn.inBuffer.raw ∧
      ∀ results w' es', w.conn.isOpen = true → w.handleRead crc results = some (w', es') →
        RoundKept w.conn.inBuffer.raw results ∧
          ((∃ b : TcpBuffer, checkedPasses w.conn.inBuffer.raw results = some b.raw ∧
              b.readable = w.conn.inBuffer.readable ++ dataOf results ∧
              kPrependSize + b.readable.length ≤ kMaxBufferSize ∧
              (∃ ns : List Nat, (decode crc b).2 = ns.foldl TcpBuffer.moveReadIndex b) ∧
              (∀ ns : List Nat, InLimits (ns.foldl TcpBuffer.moveReadIndex b).raw) ∧
              (w', es') = (w.setInBuffer b).decodeInput crc) ∨
            (w'.conn.state = .closed ∧ RoundCloses w.conn.inBuffer.readable results)) := by
  have hb := run_bounded hrun
  refine ⟨inLimits hb, fun results w' es' hopen hread => ?_⟩
  unfold World.handleRead at hread
  rw [if_neg (by simp [hopen])] at hread
  obtain ⟨⟨ended, b⟩, hloop, heq⟩ := Option.map_eq_some_iff.mp hread
  obtain ⟨hround, hpasses, hb'⟩ := readLoop_kept hb hloop
  refine ⟨hround, ?_⟩
  cases ended with
  | failed e =>
    have hsame : ((w.setInBuffer b).handleClose (.readError e)).1 = w' := congrArg Prod.fst heq
    exact Or.inr ⟨hsame ▸ handleClose_closed _ _, readLoop_failed hloop⟩
  | closed =>
    have hsame : ((w.setInBuffer b).handleClose .eof).1 = w' := congrArg Prod.fst heq
    exact Or.inr ⟨hsame ▸ handleClose_closed _ _, Or.inl ((readLoop_closed_iff hloop).mp rfl)⟩
  | drained =>
    have hlimit := hb'.readAble_add_le
    rw [← TcpBuffer.length_readable] at hlimit
    exact Or.inl ⟨b, hpasses, readLoop_readable hloop (by simp), by omega, decode_consumes b,
      fun ns => inLimits (consumed_bounded hb' ns), heq.symm⟩

/-- The first byte that comes to an open connection is decoded, and nothing else is. -/
theorem receive_path_first :
    established.conn.isOpen = true ∧
      ∃ w' es', established.handleRead (fun _ => 0) [.ok [PB_START]] = some (w', es') ∧
        ∃ b : TcpBuffer, checkedPasses established.conn.inBuffer.raw [.ok [PB_START]] = some b.raw ∧
          b.readable = [PB_START] ∧
          (w', es') = (established.setInBuffer b).decodeInput fun _ => 0 := by
  have hrun : run (World.step fun _ => 0) (World.new ⟨true, false, false, false, false⟩ 0)
      [.call .connectEstablished] = some (established, []) := rfl
  have hsome : (established.handleRead (fun _ => 0) [.ok [PB_START]]).isSome = true := by
    decide +kernel
  obtain ⟨⟨w', es'⟩, hread⟩ := Option.isSome_iff_exists.mp hsome
  obtain ⟨-, hpath⟩ := receive_path hrun
  obtain ⟨-, ⟨b, hpasses, hreadable, -, -, -, hdecode⟩ | ⟨-, hcloses⟩⟩ := hpath _ w' es' rfl hread
  · exact ⟨rfl, w', es', hread, b, hpasses, hreadable, hdecode⟩
  · rcases hcloses with heof | ⟨e, he, -⟩ | hlong
    · exact absurd heof (by simp)
    · exact absurd he (by simp)
    · exact absurd hlong (by decide)

end RocketRpc.Net
