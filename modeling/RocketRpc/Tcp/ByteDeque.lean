import RocketRpc.Lib.Machine
import RocketRpc.Tcp.RawBuffer

/-
  The byte buffer as a deque.

  What a buffer is for is said by a sequence with pushes at both ends and pops at the front
  (`Move`, `play`). A run of operations shows the moves that they report: an append that was
  granted, a prepend that had room, the bytes that `retrieve` returns or `writev` takes.
  `buffer_is_deque` is the exact condition (`InBounds`) under which a run stays inside of
  the storage; then its indices are in order and the readable bytes are those of the sequence,
  after every operation. A `prepend` in front of an append that has to make the storage larger
  can break it (`append_behind_prepend`).
-/

namespace RocketRpc.Tcp

open Machine Storage

/-! ## The abstract sequence -/

section Deque

variable {α : Type} [DecidableEq α]

inductive Move (α : Type) where
  | pushBack (xs : List α)
  | pushFront (xs : List α)
  /-- Up to `n` elements go away. -/
  | dropFront (n : Nat)
  /-- Up to `n` elements go out, and these are they. -/
  | takeFront (n : Nat) (xs : List α)

def Move.apply (q : List α) : Move α → Option (List α)
  | .pushBack xs => some (q ++ xs)
  | .pushFront xs => some (xs ++ q)
  | .dropFront n => some (q.drop n)
  | .takeFront n xs => if xs = q.take n then some (q.drop n) else none

/-- The sequence behind some moves, if it can make them. -/
def play (q : List α) : List (Move α) → Option (List α)
  | [] => some q
  | m :: ms => (m.apply q).bind fun q' => play q' ms

theorem play_append (q : List α) (ms ns : List (Move α)) :
    play q (ms ++ ns) = (play q ms).bind fun q' => play q' ns := by
  induction ms generalizing q with
  | nil => rfl
  | cons m ms ih =>
    rw [List.cons_append, play, play, Option.bind_assoc]
    exact congrArg _ (funext fun q' => ih q')

theorem play_one {q q' : List α} {m : Move α} (h : m.apply q = some q') :
    play q [m] = some q' := by
  rw [play, h]
  rfl

end Deque

/-! ## Operations -/

inductive Op where
  | append (data : Bytes)
  /-- `ensureWritable(len)`, and up to `len` bytes written at `beginWrite()` and passed over. -/
  | fill (len : Nat) (data : Bytes)
  | prepend (data : Bytes)
  /-- `consume`, which is also `moveReadIndex`. -/
  | consume (len : Nat)
  | retrieve (len : Nat)
  | adjustBuffer
  | shrink (reserve : UInt64)
  /-- With what the socket has, of which `readv` takes no more than it is offered. -/
  | readFromFd (r : Except Errno Bytes)
  | writeToFd (r : Except Errno Nat)

/-- The moves of a `readFromFd` that was offered `writable` bytes of the storage. -/
def readMoves (writable : Nat) : Except Errno Bytes → Except Errno Nat → List (Move UInt8)
  | .ok data, .ok _ => [.pushBack data]
  | .ok data, .error _ => [.pushBack (data.take writable)]
  | .error _, _ => []

/-- An operation on the raw buffer; nothing if it leaves the storage. -/
def step (b : RawBuffer) : Op → Option (RawBuffer × List (Move UInt8))
  | .append data => (b.append data).map fun r => (r.2, if r.1 then [.pushBack data] else [])
  | .fill len data =>
    (b.fill len data).map fun r => (r.2, if r.1 then [.pushBack (data.take len)] else [])
  | .prepend data => (b.prepend data).map fun b' =>
      (b', if data.length ≤ b.prependAble then [.pushFront data] else [])
  | .consume len => some (b.consume len, [.dropFront len])
  | .retrieve len => (b.retrieve len).map fun r => (r.2, [.takeFront len r.1])
  | .adjustBuffer => b.adjustBuffer.map fun b' => (b', [])
  | .shrink reserve => (b.shrink reserve).map fun b' => (b', [])
  | .readFromFd r =>
    let r := r.map fun data => data.take b.readvLimit
    (b.readFromFd r).map fun s => (s.2, readMoves b.writeAble r s.1)
  | .writeToFd r => (b.writeToFd r).map fun s =>
      (s.2.2, match s.1 with
        | .ok n => [.takeFront n s.2.1]
        | .error _ => [])

/-- The operation stays inside of the storage: one that makes it larger finds room for the move
    of the readable bytes, and the size of `shrink` does not wrap around. -/
def InBounds (b : RawBuffer) : Op → Prop
  | .append data => b.MoveFits data.length
  | .fill len _ => b.MoveFits len
  | .shrink reserve => b.ShrinkFits reserve
  | .readFromFd (.ok data) =>
    -- the bytes beyond the writable ones are appended to a full buffer
    let n := (data.take b.readvLimit).length
    b.writeAble < n →
      RawBuffer.MoveFits ⟨b.buffer, b.readIndex, b.buffer.length⟩ (n - b.writeAble)
  | _ => True

/-! ## One operation -/

/-- What `readFromFd` reports is what has become of the readable bytes. -/
theorem readMoves_play (t : TcpBuffer) (r : Except Errno Bytes) :
    play t.readable (readMoves t.writeAble r (t.readFromFd r).1) =
      some (t.readFromFd r).2.readable := by
  cases r with
  | error e => rfl
  | ok data =>
    cases hres : (t.readFromFd (.ok data)).1 with
    | ok n =>
      rw [(TcpBuffer.readFromFd_ok hres).2, readMoves]
      exact play_one rfl
    | error e =>
      rw [TcpBuffer.readFromFd_error hres, readMoves]
      exact play_one rfl

theorem step_inBounds {t : TcpBuffer} (ht : t.Allocated) {op : Op} (hok : InBounds t.raw op) :
    ∃ (t' : TcpBuffer) (ms : List (Move UInt8)), step t.raw op = some (t'.raw, ms) ∧
      t'.Allocated ∧ play t.readable ms = some t'.readable := by
  cases op with
  | append data =>
    refine ⟨(t.append data).2, _, by rw [step, TcpBuffer.raw_append ht hok]; rfl,
      TcpBuffer.append_allocated ht data, ?_⟩
    dsimp only
    split
    · rename_i hgranted
      exact play_one (congrArg some (TcpBuffer.append_readable hgranted).symm)
    · rename_i hrefused
      rw [TcpBuffer.append_eq_self (by simpa using hrefused)]
      rfl
  | fill len data =>
    obtain ⟨ok, t', hfill, ht', hreadable⟩ := TcpBuffer.raw_fill ht data hok
    refine ⟨t', _, by rw [step, hfill]; rfl, ht', ?_⟩
    dsimp only
    rw [hreadable]
    split
    · exact play_one rfl
    · rfl
  | prepend data =>
    refine ⟨t.prepend data, _, by rw [step, TcpBuffer.raw_prepend]; rfl,
      TcpBuffer.prepend_allocated ht data, ?_⟩
    rw [TcpBuffer.prepend_readable, TcpBuffer.raw_prependAble]
    split
    · exact play_one rfl
    · rfl
  | consume len =>
    refine ⟨t.consume len, _, by rw [step, TcpBuffer.raw_consume ht],
      TcpBuffer.consume_allocated ht len, ?_⟩
    rw [TcpBuffer.consume_readable]
    exact play_one rfl
  | retrieve len =>
    refine ⟨(t.retrieve len).2, _, by rw [step, TcpBuffer.raw_retrieve ht]; rfl,
      TcpBuffer.consume_allocated ht _, ?_⟩
    dsimp only
    rw [TcpBuffer.retrieve_readable, TcpBuffer.retrieve_fst]
    exact play_one (if_pos rfl)
  | adjustBuffer =>
    refine ⟨t.adjustBuffer, _, by rw [step, TcpBuffer.raw_adjustBuffer ht]; rfl,
      TcpBuffer.adjustBuffer_allocated ht, ?_⟩
    rw [TcpBuffer.adjustBuffer_readable]
    rfl
  | shrink reserve =>
    obtain ⟨t', hshrink, ht', hreadable⟩ := TcpBuffer.raw_shrink ht hok
    refine ⟨t', _, by rw [step, hshrink]; rfl, ht', ?_⟩
    rw [hreadable]
    rfl
  | readFromFd r =>
    have hfit : ∀ data, (r.map fun data => data.take t.raw.readvLimit) = .ok data →
        t.writeAble < data.length → RawBuffer.MoveFits ⟨t.buffer, t.readIndex, t.buffer.length⟩
          (data.length - t.writeAble) := by
      intro data hdata hlt
      cases r with
      | error e => exact absurd hdata (by simp [Except.map])
      | ok sent =>
        have hmove := hok
        rw [← Except.ok.inj hdata] at hlt ⊢
        rw [InBounds, TcpBuffer.raw_writeAble ht] at hmove
        exact hmove hlt
    obtain ⟨hread, hall⟩ := TcpBuffer.raw_readFromFd ht _ hfit
    refine ⟨_, _, ?_, hall, readMoves_play t _⟩
    rw [step, hread, Option.map_some, TcpBuffer.raw_writeAble ht]
  | writeToFd r =>
    obtain ⟨sent, hwrite, hall, hsent⟩ := TcpBuffer.raw_writeToFd ht r
    refine ⟨_, _, by rw [step, hwrite]; rfl, hall, ?_⟩
    dsimp only
    cases hres : (t.writeToFd r).1 with
    | ok n =>
      rw [hsent n hres, TcpBuffer.writeToFd_sent hres]
      exact play_one (if_pos rfl)
    | error e =>
      rw [TcpBuffer.writeToFd_failed hres]
      rfl

/-- An operation that does not meet the condition leaves the storage. -/
theorem step_outOfBounds {t : TcpBuffer} (ht : t.Allocated) {op : Op}
    (h : ¬ InBounds t.raw op) : step t.raw op = none := by
  cases op with
  | append data =>
    rw [step, TcpBuffer.raw_append_none ht h]
    rfl
  | fill len data =>
    rw [step, TcpBuffer.raw_fill_none ht data h]
    rfl
  | shrink reserve =>
    rw [step, TcpBuffer.raw_shrink_none ht h]
    rfl
  | readFromFd r =>
    cases r with
    | error e => exact absurd trivial h
    | ok data =>
      rw [InBounds, TcpBuffer.raw_writeAble ht] at h
      obtain ⟨hlt, hmove⟩ := Classical.not_imp.mp h
      rw [step]
      dsimp only [Except.map]
      rw [TcpBuffer.raw_readFromFd_none ht hlt hmove]
      rfl
  | prepend | consume | retrieve | adjustBuffer | writeToFd => exact absurd trivial h

/-! ## Runs -/

/-- A run in bounds goes to its end, and the readable bytes are those of its moves. -/
theorem run_inBounds {t : TcpBuffer} (ht : t.Allocated) {ops : List Op}
    (hok : RunOk step InBounds t.raw ops) :
    ∃ (t' : TcpBuffer) (ms : List (Move UInt8)), run step t.raw ops = some (t'.raw, ms) ∧
      t'.Allocated ∧ play t.readable ms = some t'.readable := by
  induction ops generalizing t with
  | nil => exact ⟨t, [], rfl, ht, rfl⟩
  | cons op ops ih =>
    obtain ⟨t₁, ms₁, hstep, ht₁, hplay₁⟩ := step_inBounds ht hok.1
    obtain ⟨t', ms, hrun, ht', hplay⟩ := ih ht₁ (hok.2 _ _ hstep)
    refine ⟨t', ms₁ ++ ms, run_cons_eq_some.mpr ⟨_, _, _, hstep, hrun, rfl⟩, ht', ?_⟩
    rw [play_append, hplay₁]
    exact hplay

/-- A run that goes to its end was in bounds. -/
theorem inBounds_of_run {t : TcpBuffer} (ht : t.Allocated) {ops : List Op}
    {r : RawBuffer × List (Move UInt8)} (hrun : run step t.raw ops = some r) :
    RunOk step InBounds t.raw ops := by
  induction ops generalizing t r with
  | nil => trivial
  | cons op ops ih =>
    obtain ⟨b, ms₁, ms, hstep, hrest, -⟩ := run_cons_eq_some.mp hrun
    have hin : InBounds t.raw op := by
      apply Classical.byContradiction
      intro hout
      rw [step_outOfBounds ht hout] at hstep
      exact absurd hstep (by simp)
    obtain ⟨t₁, ms₁', hstep', ht₁, -⟩ := step_inBounds ht hin
    have hsame := Option.some.inj (hstep'.symm.trans hstep)
    refine ⟨hin, fun b' es hs => ?_⟩
    have hb' := Option.some.inj (hs.symm.trans hstep)
    rw [show b' = b from congrArg Prod.fst hb', ← show t₁.raw = b from congrArg Prod.fst hsame]
    rw [← show t₁.raw = b from congrArg Prod.fst hsame] at hrest
    exact ih ht₁ hrest

/-! ## Main result -/

/-- From this buffer every operation of the run stays inside of the storage, and behind each of
    them the indices are in order and the readable bytes are those of the sequence. -/
def IsDeque (b₀ : RawBuffer) (ops : List Op) : Prop :=
  ∀ pre, pre <+: ops → ∃ b ms, run step b₀ pre = some (b, ms) ∧ b.readIndex ≤ b.writeIndex ∧
    b.writeIndex ≤ b.buffer.length ∧ play [] ms = some b.readable

/-- A new buffer whose size does not wrap around keeps the invariant of the indices. -/
theorem new_eq_raw {size : UInt64} {b₀ : RawBuffer} (hnew : RawBuffer.new size = some b₀)
    (hsize : kPrependSize + size.toNat < 2 ^ 64) :
    b₀ = (TcpBuffer.new size.toNat).raw ∧ (TcpBuffer.new size.toNat).Allocated := by
  unfold RawBuffer.new at hnew
  rw [sizeAdd_of_lt hsize] at hnew
  obtain ⟨hmax, hb₀⟩ := Option.ite_none_right_eq_some.mp hnew
  refine ⟨(Option.some.inj hb₀).symm, ?_⟩
  unfold TcpBuffer.Allocated TcpBuffer.new
  rw [List.length_replicate]
  exact hmax

/-- One whose size wraps around has its indices behind the end of its storage. -/
theorem writeIndex_of_wrapped {size : UInt64} {b₀ : RawBuffer}
    (hnew : RawBuffer.new size = some b₀) (hsize : ¬ kPrependSize + size.toNat < 2 ^ 64) :
    b₀.buffer.length < b₀.writeIndex := by
  have hpre : kPrependSize = 8 := rfl
  have hlt := size.toNat_lt
  unfold RawBuffer.new at hnew
  obtain ⟨-, hb₀⟩ := Option.ite_none_right_eq_some.mp hnew
  rw [← Option.some.inj hb₀, List.length_replicate]
  show sizeAdd kPrependSize size.toNat < kPrependSize
  unfold sizeAdd
  omega

/-- A new buffer is a deque in a run if and only if its size does not wrap around and every
    operation stays in bounds. -/
theorem buffer_is_deque (size : UInt64) (ops : List Op) :
    (∀ b₀, RawBuffer.new size = some b₀ → IsDeque b₀ ops) ↔
      ∀ b₀, RawBuffer.new size = some b₀ →
        kPrependSize + size.toNat < 2 ^ 64 ∧ RunOk step InBounds b₀ ops := by
  constructor
  · intro h b₀ hnew
    have hdeque := h b₀ hnew
    have hsize : kPrependSize + size.toNat < 2 ^ 64 := by
      apply Classical.byContradiction
      intro hwrapped
      obtain ⟨b, ms, hrun, -, hle, -⟩ := hdeque [] List.nil_prefix
      obtain ⟨rfl, -⟩ : b₀ = b ∧ [] = ms := by simpa using hrun
      exact absurd hle (Nat.not_le.mpr (writeIndex_of_wrapped hnew hwrapped))
    obtain ⟨rfl, hall⟩ := new_eq_raw hnew hsize
    obtain ⟨b, ms, hrun, -⟩ := hdeque ops (List.prefix_refl _)
    exact ⟨hsize, inBounds_of_run hall hrun⟩
  · intro h b₀ hnew pre hpre
    obtain ⟨hsize, hok⟩ := h b₀ hnew
    obtain ⟨rfl, hall⟩ := new_eq_raw hnew hsize
    obtain ⟨rest, rfl⟩ := hpre
    obtain ⟨t, ms, hrun, ht, hplay⟩ := run_inBounds hall (runOk_append.mp hok).1
    rw [TcpBuffer.readable_new] at hplay
    refine ⟨t.raw, ms, hrun, t.read_le_write, t.write_le_size, ?_⟩
    rw [TcpBuffer.raw_readable ht]
    exact hplay

/-- Four bytes in front, and ten more behind them: the storage of eight bytes is made larger, and
    the four bytes are moved behind its end first. -/
def appendBehindPrepend : List Op := [.prepend [1, 2, 3, 4], .append (List.replicate 10 0)]

theorem append_behind_prepend :
    ¬ ∀ (size : UInt64) (ops : List Op) (b₀ : RawBuffer), RawBuffer.new size = some b₀ →
      IsDeque b₀ ops := by
  intro h
  have hnew : RawBuffer.new 0 = some ⟨List.replicate 8 0, 8, 8⟩ := by decide +kernel
  have hrun : (run step ⟨List.replicate 8 0, 8, 8⟩ appendBehindPrepend).isNone = true := by
    decide +kernel
  obtain ⟨b, ms, hsome, -⟩ := h 0 appendBehindPrepend _ hnew _ (List.prefix_refl _)
  rw [hsome] at hrun
  exact absurd hrun (by simp)

end RocketRpc.Tcp
