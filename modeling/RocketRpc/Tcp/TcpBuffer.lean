import RocketRpc.Lib.Storage

/-
  The byte buffer of a connection (`rocket/net/tcp/tcp_buffer`).

  A `TcpBuffer` is a storage with a read and a write index. Its fields carry the order of
  the indices and the room for `kPrependSize` bytes that `consumeAll` relies on, so every
  operation below keeps them. A `memcpy` into the storage takes the proof that it fits.

  `readable`, the bytes between the indices, is what the rest of the development reads:
  each operation has one lemma that says what it does to them (`append_readable`,
  `ensureWritable_readable`, `poke_readable`, `prepend_readable`, `consume_readable`,
  `resizeBuffer_readable`, `adjustBuffer_readable`, `shrink_readable`, `readFromFd_ok`,
  `writeToFd_ok`).
-/

namespace RocketRpc.Tcp

open Storage

abbrev Bytes := List UInt8

def kPrependSize : Nat := 8

def kMaxBufferSize : Nat := 64 * 1024 * 1024

/-- The values of `errno` the sources tell apart. -/
inductive Errno where
  | EINTR
  | EAGAIN
  | EWOULDBLOCK
  | EMSGSIZE
  | other (code : Nat)
  deriving DecidableEq, Repr

structure TcpBuffer where
  buffer : Bytes
  readIndex : Nat
  writeIndex : Nat
  read_le_write : readIndex ≤ writeIndex
  write_le_size : writeIndex ≤ buffer.length
  prepend_le_size : kPrependSize ≤ buffer.length
  deriving DecidableEq

namespace TcpBuffer

/-- `TcpBuffer(size)`. -/
def new (size : Nat) : TcpBuffer where
  buffer := List.replicate (kPrependSize + size) 0
  readIndex := kPrependSize
  writeIndex := kPrependSize
  read_le_write := Nat.le_refl _
  write_le_size := by simp
  prepend_le_size := by simp

def readAble (b : TcpBuffer) : Nat := b.writeIndex - b.readIndex

def writeAble (b : TcpBuffer) : Nat := b.buffer.length - b.writeIndex

def prependAble (b : TcpBuffer) : Nat := b.readIndex

def capacity (b : TcpBuffer) : Nat := b.buffer.length

/-- `readableSpan()`: the bytes between the indices. -/
def readable (b : TcpBuffer) : Bytes := slice b.buffer b.readIndex b.readAble

@[simp] theorem length_readable (b : TcpBuffer) : b.readable.length = b.readAble := by
  have h1 := b.read_le_write
  have h2 := b.write_le_size
  rw [readable, length_slice, readAble]
  omega

theorem readable_eq_nil_iff (b : TcpBuffer) : b.readable = [] ↔ b.readAble = 0 := by
  rw [← List.length_eq_zero_iff, length_readable]

theorem readable_new (size : Nat) : (new size).readable = [] := by
  rw [readable_eq_nil_iff]
  exact Nat.sub_self _

/-! ## Writing -/

/-- `memcpy(beginWrite(), data, len)`. -/
def poke (b : TcpBuffer) (data : Bytes) (h : data.length ≤ b.writeAble) : TcpBuffer :=
  have hlen : (store b.buffer b.writeIndex data).length = b.buffer.length :=
    length_store (by have := b.write_le_size; unfold writeAble at h; omega)
  { b with
    buffer := store b.buffer b.writeIndex data
    write_le_size := by rw [hlen]; exact b.write_le_size
    prepend_le_size := by rw [hlen]; exact b.prepend_le_size }

def moveWriteIndex (b : TcpBuffer) (size : Nat) : TcpBuffer :=
  { b with
    writeIndex := b.writeIndex + min size b.writeAble
    read_le_write := by have := b.read_le_write; omega
    write_le_size := by have := b.write_le_size; unfold writeAble; omega }

/-- The readable bytes moved to `kPrependSize` in a storage of `size` bytes; the bytes that
    `resize` adds are zero. -/
def relocate (b : TcpBuffer) (size : Nat) (h : kPrependSize + b.readAble ≤ size) : TcpBuffer where
  buffer := resize (store b.buffer kPrependSize b.readable) size 0
  readIndex := kPrependSize
  writeIndex := kPrependSize + b.readAble
  read_le_write := Nat.le_add_right _ _
  write_le_size := by rw [length_resize]; exact h
  prepend_le_size := by rw [length_resize]; omega

/-- `makeSpace(len)`: move the readable bytes to the front if that makes enough room, else
    grow to at least what is required, and never beyond `kMaxBufferSize`. -/
def makeSpace (b : TcpBuffer) (len : Nat) : Bool × TcpBuffer :=
  if len = 0 then (true, b)
  else if h : b.writeAble + b.prependAble ≥ len + kPrependSize then
    (true, b.relocate b.capacity (by
      have h1 := b.read_le_write
      have h2 := b.write_le_size
      simp only [writeAble, prependAble, readAble, capacity] at h ⊢
      omega))
  else if b.readAble > kMaxBufferSize - kPrependSize ∨
      len > kMaxBufferSize - kPrependSize - b.readAble then (false, b)
  else
    let required := kPrependSize + b.readAble + len
    let doubled := min (b.capacity * 2) kMaxBufferSize
    let newSize := max required doubled
    if newSize > kMaxBufferSize then (false, b)
    else
      let grown := b.relocate newSize (by simp only [newSize, required]; omega)
      (decide (grown.writeAble ≥ len), grown)

def ensureWritable (b : TcpBuffer) (len : Nat) : Bool × TcpBuffer :=
  if len > kMaxBufferSize ∨ b.readAble > kMaxBufferSize - len then (false, b)
  else if b.writeAble < len then b.makeSpace len
  else (true, b)

@[simp] theorem relocate_writeAble (b : TcpBuffer) (size : Nat)
    (h : kPrependSize + b.readAble ≤ size) :
    (b.relocate size h).writeAble = size - (kPrependSize + b.readAble) := by
  simp [relocate, writeAble]

@[simp] theorem relocate_readAble (b : TcpBuffer) (size : Nat)
    (h : kPrependSize + b.readAble ≤ size) : (b.relocate size h).readAble = b.readAble := by
  simp [relocate, readAble]

theorem relocate_readable (b : TcpBuffer) (size : Nat) (h : kPrependSize + b.readAble ≤ size) :
    (b.relocate size h).readable = b.readable := by
  have hpre := b.prepend_le_size
  have hlen : kPrependSize + b.readAble ≤ (store b.buffer kPrependSize b.readable).length := by
    simp only [store, List.length_append, List.length_take, length_readable]
    omega
  rw [readable, relocate_readAble]
  show slice (resize (store b.buffer kPrependSize b.readable) size 0) kPrependSize b.readAble = _
  rw [slice_resize 0 hlen h, ← length_readable, slice_store hpre]

theorem makeSpace_readable (b : TcpBuffer) (len : Nat) :
    (b.makeSpace len).2.readable = b.readable := by
  unfold makeSpace
  split
  · rfl
  split
  · simp only [relocate_readable]
  split
  · rfl
  dsimp only
  split
  · rfl
  · simp only [relocate_readable]

theorem makeSpace_writeAble (b : TcpBuffer) (len : Nat) (h : (b.makeSpace len).1 = true) :
    len ≤ (b.makeSpace len).2.writeAble := by
  unfold makeSpace at h ⊢
  split
  · omega
  rename_i hlen
  rw [if_neg hlen] at h
  split
  · rename_i hroom
    have h1 := b.read_le_write
    have h2 := b.write_le_size
    rw [relocate_writeAble]
    simp only [writeAble, prependAble, readAble, capacity] at hroom ⊢
    omega
  rename_i hroom
  rw [dif_neg hroom] at h
  split
  · rename_i hmax
    rw [if_pos hmax] at h
    exact absurd h (by simp)
  rename_i hmax
  rw [if_neg hmax] at h
  dsimp only at h ⊢
  split
  · rename_i hsize
    rw [if_pos hsize] at h
    exact absurd h (by simp)
  · rename_i hsize
    rw [if_neg hsize] at h
    exact of_decide_eq_true h

theorem ensureWritable_readable (b : TcpBuffer) (len : Nat) :
    (b.ensureWritable len).2.readable = b.readable := by
  unfold ensureWritable
  split
  · rfl
  split
  · exact makeSpace_readable b len
  · rfl

theorem ensureWritable_writeAble {b : TcpBuffer} {len : Nat}
    (h : (b.ensureWritable len).1 = true) : len ≤ (b.ensureWritable len).2.writeAble := by
  unfold ensureWritable at h ⊢
  split
  · rename_i hmax
    rw [if_pos hmax] at h
    exact absurd h (by simp)
  rename_i hmax
  rw [if_neg hmax] at h
  split
  · rename_i hlt
    rw [if_pos hlt] at h
    exact makeSpace_writeAble b len h
  · exact Nat.not_lt.mp ‹_›

/-- A request that keeps the buffer within its maximum is granted. -/
theorem ensureWritable_of_le {b : TcpBuffer} {len : Nat}
    (h : kPrependSize + b.readAble + len ≤ kMaxBufferSize) : (b.ensureWritable len).1 = true := by
  unfold ensureWritable
  rw [if_neg (by omega)]
  split
  · unfold makeSpace
    split
    · rfl
    split
    · rfl
    rw [if_neg (by omega)]
    dsimp only
    rw [if_neg (by omega), decide_eq_true_eq, relocate_writeAble]
    omega
  · rfl

/-- A refused request leaves the buffer as it was: the last check of `makeSpace`, after it
    has grown the storage, never fails. -/
theorem makeSpace_eq_self {b : TcpBuffer} {len : Nat} (h : (b.makeSpace len).1 = false) :
    (b.makeSpace len).2 = b := by
  unfold makeSpace at h ⊢
  split
  · rfl
  rename_i hlen
  rw [if_neg hlen] at h
  split
  · rename_i hroom
    rw [dif_pos hroom] at h
    exact absurd h (by simp)
  rename_i hroom
  rw [dif_neg hroom] at h
  split
  · rfl
  rename_i hmax
  rw [if_neg hmax] at h
  dsimp only at h ⊢
  split
  · rfl
  · rename_i hsize
    rw [if_neg hsize, decide_eq_false_iff_not, relocate_writeAble] at h
    omega

theorem ensureWritable_eq_self {b : TcpBuffer} {len : Nat}
    (h : (b.ensureWritable len).1 = false) : (b.ensureWritable len).2 = b := by
  unfold ensureWritable at h ⊢
  split
  · rfl
  rename_i hmax
  rw [if_neg hmax] at h
  split
  · rename_i hlt
    rw [if_pos hlt] at h
    exact makeSpace_eq_self h
  · rfl

/-- `append(data, len)`; the data is a list, so the null check has no counterpart. -/
def append (b : TcpBuffer) (data : Bytes) : Bool × TcpBuffer :=
  if data.length = 0 then (true, b)
  else if h : (b.ensureWritable data.length).1 = true then
    (true, ((b.ensureWritable data.length).2.poke data (ensureWritable_writeAble h)).moveWriteIndex
      data.length)
  else (false, (b.ensureWritable data.length).2)

/-- Bytes written behind the write index and then passed over are readable. -/
theorem poke_readable (b : TcpBuffer) (data : Bytes) (h : data.length ≤ b.writeAble) :
    ((b.poke data h).moveWriteIndex data.length).readable = b.readable ++ data := by
  have h1 := b.read_le_write
  have h2 := b.write_le_size
  have hlen : (store b.buffer b.writeIndex data).length = b.buffer.length :=
    length_store (by unfold writeAble at h; omega)
  have hw : (b.poke data h).writeAble = b.writeAble := by simp [poke, writeAble, hlen]
  have hmin : min data.length (b.poke data h).writeAble = data.length := by
    rw [hw]
    exact Nat.min_eq_left h
  have hr : ((b.poke data h).moveWriteIndex data.length).readAble = b.readAble + data.length := by
    simp only [readAble, moveWriteIndex, hmin]
    simp only [poke]
    omega
  rw [readable, hr, slice_add]
  show slice (store b.buffer b.writeIndex data) b.readIndex b.readAble ++
    slice (store b.buffer b.writeIndex data) (b.readIndex + b.readAble) data.length = _
  rw [show b.readIndex + b.readAble = b.writeIndex by unfold readAble; omega, slice_store h2,
    slice_store_before h2 (by unfold readAble; omega)]
  rfl

theorem append_readable {b : TcpBuffer} {data : Bytes} (h : (b.append data).1 = true) :
    (b.append data).2.readable = b.readable ++ data := by
  unfold append at h ⊢
  split
  · rename_i h0
    rw [List.length_eq_zero_iff.mp h0, List.append_nil]
  rename_i h0
  rw [if_neg h0] at h
  split
  · rw [poke_readable, ensureWritable_readable]
  · rename_i hno
    rw [dif_neg hno] at h
    exact absurd h (by simp)

theorem append_eq_self {b : TcpBuffer} {data : Bytes} (h : (b.append data).1 = false) :
    (b.append data).2 = b := by
  unfold append at h ⊢
  split
  · rfl
  rename_i h0
  rw [if_neg h0] at h
  split
  · rename_i hok
    rw [dif_pos hok] at h
    exact absurd h (by simp)
  · rename_i hno
    exact ensureWritable_eq_self (by simpa using hno)

theorem append_of_le {b : TcpBuffer} {data : Bytes}
    (h : kPrependSize + b.readAble + data.length ≤ kMaxBufferSize) : (b.append data).1 = true := by
  unfold append
  split
  · rfl
  · rw [dif_pos (ensureWritable_of_le h)]

/-- `prepend(data, len)`: the bytes go in front of the read index, or nowhere. -/
def prepend (b : TcpBuffer) (data : Bytes) : TcpBuffer :=
  if h : data.length ≤ b.prependAble then
    have hlen : (store b.buffer (b.readIndex - data.length) data).length = b.buffer.length :=
      length_store (by
        have h1 := b.read_le_write
        have h2 := b.write_le_size
        unfold prependAble at h
        omega)
    { buffer := store b.buffer (b.readIndex - data.length) data
      readIndex := b.readIndex - data.length
      writeIndex := b.writeIndex
      read_le_write := by have := b.read_le_write; omega
      write_le_size := by rw [hlen]; exact b.write_le_size
      prepend_le_size := by rw [hlen]; exact b.prepend_le_size }
  else b

theorem prepend_readable (b : TcpBuffer) (data : Bytes) :
    (b.prepend data).readable =
      if data.length ≤ b.prependAble then data ++ b.readable else b.readable := by
  unfold prepend
  split
  · rename_i h
    have h1 := b.read_le_write
    have h2 := b.write_le_size
    unfold prependAble at h
    have hcount : b.writeIndex - (b.readIndex - data.length) = data.length + b.readAble := by
      unfold readAble
      omega
    simp only [readable, readAble, hcount]
    rw [slice_add, slice_store (by omega), slice_store_after (by omega) (by omega),
      Nat.sub_add_cancel h]
  · rfl

/-! ## Reading -/

def consumeAll (b : TcpBuffer) : TcpBuffer :=
  { b with
    readIndex := kPrependSize
    writeIndex := kPrependSize
    read_le_write := Nat.le_refl _
    write_le_size := b.prepend_le_size }

def consume (b : TcpBuffer) (len : Nat) : TcpBuffer :=
  if h : len < b.readAble then
    { b with
      readIndex := b.readIndex + len
      read_le_write := by unfold readAble at h; omega }
  else b.consumeAll

/-- The name the decoder uses for `consume`. -/
def moveReadIndex (b : TcpBuffer) (size : Nat) : TcpBuffer := b.consume size

@[simp] theorem consumeAll_readable (b : TcpBuffer) : b.consumeAll.readable = [] := by
  rw [readable_eq_nil_iff]
  exact Nat.sub_self _

theorem consume_readable (b : TcpBuffer) (len : Nat) :
    (b.consume len).readable = b.readable.drop len := by
  unfold consume
  split
  · rename_i h
    rw [readable, readable, drop_slice]
    simp only [readAble]
    rw [Nat.sub_add_eq]
  · rw [consumeAll_readable, List.drop_eq_nil_of_le]
    rw [length_readable]
    omega

@[simp] theorem moveReadIndex_readable (b : TcpBuffer) (len : Nat) :
    (b.moveReadIndex len).readable = b.readable.drop len := consume_readable b len

/-- `retrieve(len)`, and what it returns. -/
def retrieve (b : TcpBuffer) (len : Nat) : Bytes × TcpBuffer :=
  let actual := min len b.readAble
  (slice b.buffer b.readIndex actual, b.consume actual)

theorem retrieve_fst (b : TcpBuffer) (len : Nat) : (b.retrieve len).1 = b.readable.take len := by
  rw [readable, slice, List.take_take]
  rfl

theorem retrieve_readable (b : TcpBuffer) (len : Nat) :
    (b.retrieve len).2.readable = b.readable.drop len := by
  have hdrop : (b.retrieve len).2.readable = b.readable.drop (min len b.readAble) :=
    consume_readable b _
  rw [hdrop]
  rcases Nat.le_total len b.readAble with hle | hge
  · rw [Nat.min_eq_left hle]
  · rw [Nat.min_eq_right hge, List.drop_eq_nil_of_le (by simp),
      List.drop_eq_nil_of_le (by simpa using hge)]

/-! ## Management -/

def adjustBuffer (b : TcpBuffer) : TcpBuffer :=
  if h : b.prependAble > kPrependSize ∧ b.prependAble > b.readAble / 2 then
    b.relocate b.capacity (by
      have h1 := b.read_le_write
      have h2 := b.write_le_size
      simp only [prependAble, readAble, capacity] at h ⊢
      omega)
  else b

theorem adjustBuffer_readable (b : TcpBuffer) : b.adjustBuffer.readable = b.readable := by
  unfold adjustBuffer
  split
  · exact relocate_readable b _ _
  · rfl

/-- `resizeBuffer(new_size)`. With less than `kPrependSize + readAble()` bytes the `memcpy`
    of the source overruns the new storage; the model then leaves the buffer alone. -/
def resizeBuffer (b : TcpBuffer) (newSize : Nat) : TcpBuffer :=
  if h : kPrependSize + b.readAble ≤ newSize then
    have hlen : (store (List.replicate newSize 0) kPrependSize b.readable).length = newSize := by
      rw [length_store (by rw [List.length_replicate, length_readable]; exact h),
        List.length_replicate]
    { buffer := store (List.replicate newSize 0) kPrependSize b.readable
      readIndex := kPrependSize
      writeIndex := kPrependSize + b.readAble
      read_le_write := Nat.le_add_right _ _
      write_le_size := by rw [hlen]; exact h
      prepend_le_size := by rw [hlen]; omega }
  else b

@[simp] theorem resizeBuffer_readable (b : TcpBuffer) (newSize : Nat) :
    (b.resizeBuffer newSize).readable = b.readable := by
  unfold resizeBuffer
  split
  · rename_i h
    have hlen : kPrependSize ≤ (List.replicate newSize (0 : UInt8)).length := by
      rw [List.length_replicate]
      omega
    simp only [readable, readAble, Nat.add_sub_cancel_left]
    rw [← readAble, ← readable, ← length_readable, slice_store hlen]
  · rfl

/-- `shrink(reserve)`, where the size it asks for does not overflow. -/
def shrink (b : TcpBuffer) (reserve : Nat) : TcpBuffer :=
  b.resizeBuffer (kPrependSize + b.readAble + reserve)

theorem shrink_readable (b : TcpBuffer) (reserve : Nat) :
    (b.shrink reserve).readable = b.readable := resizeBuffer_readable b _

/-! ## Socket I/O -/

/-- The size of the extra buffer `readFromFd` offers besides the writable bytes. -/
def kExtraBufferSize : Nat := 65536

/-- How many bytes the `readv` of `readFromFd` can return. -/
def readvLimit (b : TcpBuffer) : Nat :=
  if b.writeAble < kExtraBufferSize then b.writeAble + kExtraBufferSize else b.writeAble

/-- `readFromFd`, given what `readv` returned: the bytes it read, none at end of file, or
    `errno`. Bytes beyond the writable ones come from the extra buffer by `append`. -/
def readFromFd (b : TcpBuffer) (r : Except Errno Bytes) : Except Errno Nat × TcpBuffer :=
  match r with
  | .error e => (.error e, b)
  | .ok data =>
    if h : data.length ≤ b.writeAble then
      (.ok data.length, (b.poke data h).moveWriteIndex data.length)
    else
      let full := (b.poke (data.take b.writeAble)
        (by rw [List.length_take]; omega)).moveWriteIndex (data.take b.writeAble).length
      if (full.append (data.drop b.writeAble)).1 then
        (.ok data.length, (full.append (data.drop b.writeAble)).2)
      else (.error .EMSGSIZE, (full.append (data.drop b.writeAble)).2)

/-- A read that succeeds returns the number of bytes and appends them. -/
theorem readFromFd_ok {b : TcpBuffer} {data : Bytes} {n : Nat}
    (h : (b.readFromFd (.ok data)).1 = .ok n) :
    n = data.length ∧ (b.readFromFd (.ok data)).2.readable = b.readable ++ data := by
  unfold readFromFd at h ⊢
  simp only at h ⊢
  split
  · rename_i hle
    rw [dif_pos hle, Except.ok.injEq] at h
    exact ⟨h.symm, poke_readable b data hle⟩
  · rename_i hlt
    rw [dif_neg hlt] at h
    split
    · rename_i hok
      rw [if_pos hok] at h
      refine ⟨by simpa using h.symm, ?_⟩
      rw [append_readable hok, poke_readable, List.append_assoc, List.take_append_drop]
    · rename_i hno
      rw [if_neg hno] at h
      simp at h

/-- One that fails because the rest does not fit has appended what was writable. -/
theorem readFromFd_error {b : TcpBuffer} {data : Bytes} {e : Errno}
    (h : (b.readFromFd (.ok data)).1 = .error e) :
    (b.readFromFd (.ok data)).2.readable = b.readable ++ data.take b.writeAble := by
  unfold readFromFd at h ⊢
  simp only at h ⊢
  split
  · rename_i hle
    rw [dif_pos hle] at h
    exact absurd h (by simp)
  · rename_i hlt
    rw [dif_neg hlt] at h
    split
    · rename_i hok
      rw [if_pos hok] at h
      exact absurd h (by simp)
    · rename_i hno
      rw [append_eq_self (by simpa using hno), poke_readable]

/-- A read that keeps the buffer within its maximum succeeds. -/
theorem readFromFd_of_le {b : TcpBuffer} {data : Bytes}
    (h : kPrependSize + b.readAble + data.length ≤ kMaxBufferSize) :
    (b.readFromFd (.ok data)).1 = .ok data.length := by
  unfold readFromFd
  simp only
  split
  · rfl
  rename_i hlt
  have htake : (data.take b.writeAble).length ≤ b.writeAble := by
    rw [List.length_take]
    omega
  have hfull := congrArg List.length (poke_readable b (data.take b.writeAble) htake)
  rw [length_readable, List.length_append, length_readable] at hfull
  rw [if_pos (append_of_le ?_)]
  rw [hfull, List.length_drop, List.length_take]
  omega

/-- `writeToFd`, given what `writev` returned: how many of the bytes offered it took, or
    `errno`. The storage does not wrap, so the second segment of the source is empty. -/
def writeToFd (b : TcpBuffer) (r : Except Errno Nat) : Except Errno Nat × TcpBuffer :=
  let len := b.readAble
  if len = 0 then (.ok 0, b)
  else
    match r with
    | .error e => (.error e, b)
    | .ok n => (.ok n, b.consume n)

theorem writeToFd_ok (b : TcpBuffer) (n : Nat) :
    (b.writeToFd (.ok n)).2.readable = b.readable.drop n := by
  unfold writeToFd
  simp only
  split
  · rename_i h
    rw [(readable_eq_nil_iff b).mpr h, List.drop_nil]
  · exact consume_readable b n

/-- A write that reports `n` bytes has consumed `n` bytes, also where there was nothing to write. -/
theorem writeToFd_sent {b : TcpBuffer} {r : Except Errno Nat} {n : Nat}
    (h : (b.writeToFd r).1 = .ok n) : (b.writeToFd r).2.readable = b.readable.drop n := by
  unfold writeToFd at h ⊢
  simp only at h ⊢
  split
  · rename_i hempty
    rw [(readable_eq_nil_iff b).mpr hempty, List.drop_nil]
  · rename_i hsome
    rw [if_neg hsome] at h
    cases r with
    | error e => exact absurd h (by simp)
    | ok m =>
      rw [← Except.ok.inj h]
      exact consume_readable b m

theorem writeToFd_failed {b : TcpBuffer} {r : Except Errno Nat} {e : Errno}
    (h : (b.writeToFd r).1 = .error e) : (b.writeToFd r).2 = b := by
  unfold writeToFd at h ⊢
  simp only at h ⊢
  split
  · rfl
  · rename_i hsome
    rw [if_neg hsome] at h
    cases r with
    | error e => rfl
    | ok m => exact absurd h (by simp)

end TcpBuffer

end RocketRpc.Tcp
