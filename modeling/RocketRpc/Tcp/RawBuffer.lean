import RocketRpc.Tcp.TcpBuffer
import Mathlib.Algebra.Group.Nat.Defs

/-
  The byte buffer as a storage with two indices and nothing else.

  A `RawBuffer` carries no proof. Each operation computes what the sources compute, with
  differences and sums of 64 bits where these can wrap around, and each access to the storage
  is checked where it happens: an operation gives nothing if a byte it reads or writes is
  not in the storage at that moment.

  `TcpBuffer.raw` forgets the proofs of a `TcpBuffer`. On such a buffer an operation stays in
  bounds or not, and where it does, it is the one of the `TcpBuffer` (`raw_append` and the
  others). The one access that can fail is in `makeSpace`: it moves the readable bytes to
  `kPrependSize` before it makes the storage larger, and with a read index below that
  (after a `prepend`) they may not fit (`MoveFits`).
-/

namespace RocketRpc.Tcp

open Storage

/-- A difference of 64 bits. -/
def sizeSub (a b : Nat) : Nat := (a + 2 ^ 64 - b) % 2 ^ 64

/-- A sum of 64 bits. -/
def sizeAdd (a b : Nat) : Nat := (a + b) % 2 ^ 64

theorem sizeSub_of_le {a b : Nat} (h : b ≤ a) (ha : a < 2 ^ 64) : sizeSub a b = a - b := by
  unfold sizeSub
  omega

theorem sizeAdd_of_lt {a b : Nat} (h : a + b < 2 ^ 64) : sizeAdd a b = a + b :=
  Nat.mod_eq_of_lt h

/-- The longest `std::vector<char>`; the constructor of a longer one throws. -/
def maxVectorSize : Nat := 2 ^ 63 - 1

structure RawBuffer where
  buffer : Bytes
  readIndex : Nat
  writeIndex : Nat
  deriving DecidableEq

namespace RawBuffer

/-- `TcpBuffer(size)`; nothing where the vector throws. -/
def new (size : UInt64) : Option RawBuffer :=
  let n := sizeAdd kPrependSize size.toNat
  if n ≤ maxVectorSize then some ⟨List.replicate n 0, kPrependSize, kPrependSize⟩ else none

def readAble (b : RawBuffer) : Nat := sizeSub b.writeIndex b.readIndex

def writeAble (b : RawBuffer) : Nat := sizeSub b.buffer.length b.writeIndex

def prependAble (b : RawBuffer) : Nat := b.readIndex

/-- `readableSpan()`. -/
def readable (b : RawBuffer) : Bytes := slice b.buffer b.readIndex b.readAble

/-! ## Writing -/

def moveWriteIndex (b : RawBuffer) (size : Nat) : RawBuffer :=
  { b with writeIndex := b.writeIndex + min size b.writeAble }

def makeSpace (b : RawBuffer) (len : Nat) : Option (Bool × RawBuffer) :=
  let readable := b.readAble
  if len = 0 then some (true, b)
  else if sizeAdd b.writeAble b.prependAble ≥ sizeAdd len kPrependSize then
    (if readable > 0 then move b.buffer kPrependSize b.readIndex readable
      else some b.buffer).map
        fun buffer => (true, ⟨buffer, kPrependSize, kPrependSize + readable⟩)
  else if readable > kMaxBufferSize - kPrependSize ∨
      len > kMaxBufferSize - kPrependSize - readable then some (false, b)
  else
    let required := kPrependSize + readable + len
    let doubled := min (b.buffer.length * 2) kMaxBufferSize
    let newSize := max required doubled
    if newSize > kMaxBufferSize then some (false, b)
    else
      -- the readable bytes move up in the storage as it is, and `resize` comes behind
      (if b.readIndex ≠ kPrependSize ∧ readable > 0 then
          move b.buffer kPrependSize b.readIndex readable
        else some b.buffer).map fun buffer =>
          let grown : RawBuffer :=
            ⟨resize buffer newSize 0, kPrependSize, kPrependSize + readable⟩
          (decide (grown.writeAble ≥ len), grown)

def ensureWritable (b : RawBuffer) (len : Nat) : Option (Bool × RawBuffer) :=
  if len > kMaxBufferSize ∨ b.readAble > kMaxBufferSize - len then some (false, b)
  else if b.writeAble < len then b.makeSpace len
  else some (true, b)

def append (b : RawBuffer) (data : Bytes) : Option (Bool × RawBuffer) :=
  if data.length = 0 then some (true, b)
  else (b.ensureWritable data.length).bind fun r =>
    if r.1 then (save r.2.buffer r.2.writeIndex data).map fun buffer =>
      (true, { r.2 with buffer, writeIndex := r.2.writeIndex + data.length })
    else some (false, r.2)

/-- What a caller does with `ensureWritable(len)`: if it is granted, write up to `len` bytes at
    `beginWrite()` and pass over them. -/
def fill (b : RawBuffer) (len : Nat) (data : Bytes) : Option (Bool × RawBuffer) :=
  (b.ensureWritable len).bind fun r =>
    if r.1 then (save r.2.buffer r.2.writeIndex (data.take len)).map fun buffer =>
      (true, { r.2 with buffer }.moveWriteIndex (data.take len).length)
    else some (false, r.2)

def prepend (b : RawBuffer) (data : Bytes) : Option RawBuffer :=
  if data.length > b.prependAble then some b
  else
    let readIndex := b.readIndex - data.length
    (save b.buffer readIndex data).map fun buffer => { b with buffer, readIndex }

/-! ## Reading -/

def consume (b : RawBuffer) (len : Nat) : RawBuffer :=
  if len < b.readAble then { b with readIndex := b.readIndex + len }
  else { b with readIndex := kPrependSize, writeIndex := kPrependSize }

def retrieve (b : RawBuffer) (len : Nat) : Option (Bytes × RawBuffer) :=
  let actual := min len b.readAble
  (load b.buffer b.readIndex actual).map fun result => (result, b.consume actual)

/-! ## Management -/

def adjustBuffer (b : RawBuffer) : Option RawBuffer :=
  if b.prependAble > kPrependSize ∧ b.prependAble > b.readAble / 2 then
    (move b.buffer kPrependSize b.readIndex b.readAble).map fun buffer =>
      ⟨buffer, kPrependSize, kPrependSize + b.readAble⟩
  else some b

/-- The size of the new storage of `shrink(reserve)`. -/
def shrunkSize (b : RawBuffer) (reserve : UInt64) : Nat :=
  sizeAdd (sizeAdd kPrependSize b.readAble) reserve.toNat

/-- `shrink(reserve)`; where the new vector throws, the buffer stays as it is. -/
def shrink (b : RawBuffer) (reserve : UInt64) : Option RawBuffer :=
  let n := b.shrunkSize reserve
  if n ≤ maxVectorSize then
    (load b.buffer b.readIndex b.readAble).bind fun data =>
      (save (List.replicate n 0) kPrependSize data).map fun tmp =>
        ⟨tmp, kPrependSize, kPrependSize + b.readAble⟩
  else some b

/-! ## Socket I/O -/

/-- How many bytes the `readv` of `readFromFd` can return. -/
def readvLimit (b : RawBuffer) : Nat :=
  if b.writeAble < TcpBuffer.kExtraBufferSize then b.writeAble + TcpBuffer.kExtraBufferSize
  else b.writeAble

/-- `readFromFd`, given the bytes that `readv` read, or `errno`. -/
def readFromFd (b : RawBuffer) (r : Except Errno Bytes) :
    Option (Except Errno Nat × RawBuffer) :=
  match r with
  | .error e => some (.error e, b)
  | .ok data =>
    let writable := b.writeAble
    (save b.buffer b.writeIndex (data.take writable)).bind fun buffer =>
      if data.length ≤ writable then
        some (.ok data.length, { b with buffer, writeIndex := b.writeIndex + data.length })
      else
        let full : RawBuffer := { b with buffer, writeIndex := buffer.length }
        (full.append (data.drop writable)).map fun r =>
          (if r.1 then .ok data.length else .error .EMSGSIZE, r.2)

/-- `writeToFd`, given how many of the bytes offered `writev` took, or `errno`; with the bytes
    it took. -/
def writeToFd (b : RawBuffer) (r : Except Errno Nat) :
    Option (Except Errno Nat × Bytes × RawBuffer) :=
  let len := b.readAble
  if len = 0 then some (.ok 0, [], b)
  else
    let first := min (sizeSub b.buffer.length b.readIndex) len
    (load b.buffer b.readIndex first).bind fun front =>
      (load b.buffer 0 (len - first)).map fun back =>
        match r with
        | .error e => (.error e, [], b)
        | .ok n => (.ok n, (front ++ back).take n, b.consume n)

/-! ## What stays in bounds -/

/-- `makeSpace(len)` is called and makes the storage larger. -/
def Grows (b : RawBuffer) (len : Nat) : Prop :=
  b.writeAble < len ∧ b.writeAble + b.prependAble < len + kPrependSize ∧
    kPrependSize + b.readAble + len ≤ kMaxBufferSize

instance (b : RawBuffer) (len : Nat) : Decidable (b.Grows len) :=
  inferInstanceAs (Decidable (_ ∧ _))

/-- A storage that is made larger has room for the readable bytes behind the first
    `kPrependSize` before it is. -/
def MoveFits (b : RawBuffer) (len : Nat) : Prop :=
  b.Grows len → b.readAble = 0 ∨ kPrependSize + b.readAble ≤ b.buffer.length

instance (b : RawBuffer) (len : Nat) : Decidable (b.MoveFits len) :=
  inferInstanceAs (Decidable (_ → _))

/-- A size that the vector accepts is not one that has wrapped around. -/
def ShrinkFits (b : RawBuffer) (reserve : UInt64) : Prop :=
  b.shrunkSize reserve ≤ maxVectorSize → kPrependSize + b.readAble + reserve.toNat < 2 ^ 64

instance (b : RawBuffer) (reserve : UInt64) : Decidable (b.ShrinkFits reserve) :=
  inferInstanceAs (Decidable (_ → _))

end RawBuffer

/-! ## The raw operations on a buffer that keeps its invariant -/

namespace TcpBuffer

/-- The buffer without its proofs. -/
def raw (b : TcpBuffer) : RawBuffer := ⟨b.buffer, b.readIndex, b.writeIndex⟩

@[simp] theorem raw_buffer (b : TcpBuffer) : b.raw.buffer = b.buffer := rfl

@[simp] theorem raw_readIndex (b : TcpBuffer) : b.raw.readIndex = b.readIndex := rfl

@[simp] theorem raw_writeIndex (b : TcpBuffer) : b.raw.writeIndex = b.writeIndex := rfl

@[simp] theorem raw_prependAble (b : TcpBuffer) : b.raw.prependAble = b.prependAble := rfl

/-- The storage is one that a vector can have. -/
def Allocated (b : TcpBuffer) : Prop := b.buffer.length ≤ maxVectorSize

theorem raw_readAble {b : TcpBuffer} (hb : b.Allocated) : b.raw.readAble = b.readAble := by
  have h1 := b.read_le_write
  have h2 := b.write_le_size
  unfold Allocated maxVectorSize at hb
  exact sizeSub_of_le h1 (by simp only [raw]; omega)

theorem raw_writeAble {b : TcpBuffer} (hb : b.Allocated) : b.raw.writeAble = b.writeAble := by
  have h2 := b.write_le_size
  unfold Allocated maxVectorSize at hb
  exact sizeSub_of_le h2 (by simp only [raw]; omega)

theorem raw_readable {b : TcpBuffer} (hb : b.Allocated) : b.raw.readable = b.readable := by
  rw [RawBuffer.readable, raw_readAble hb]
  rfl

/-- The readable bytes end in front of the end of the storage. -/
theorem readIndex_add_readAble_le (b : TcpBuffer) :
    b.readIndex + b.readAble ≤ b.buffer.length := by
  have h1 := b.read_le_write
  have h2 := b.write_le_size
  unfold readAble
  omega

/-- The move to `kPrependSize`, also where it is left out because it would change nothing. -/
theorem move_up (b : TcpBuffer) {c : Prop} [Decidable c]
    (hfit : b.readAble = 0 ∨ kPrependSize + b.readAble ≤ b.buffer.length)
    (hc : ¬ c → b.readAble = 0 ∨ b.readIndex = kPrependSize) :
    (if c then move b.buffer kPrependSize b.readIndex b.readAble else some b.buffer) =
      some (store b.buffer kPrependSize b.readable) := by
  have hpre := b.prepend_le_size
  split
  · refine move_of_le b.readIndex_add_readAble_le ?_
    rcases hfit with hzero | hfit
    · omega
    · exact hfit
  · rename_i hno
    rcases hc hno with hzero | hfirst
    · rw [(readable_eq_nil_iff b).mpr hzero, store_nil]
    · rw [readable, hfirst, store_slice]

theorem store_readable_length {b : TcpBuffer}
    (hfit : b.readAble = 0 ∨ kPrependSize + b.readAble ≤ b.buffer.length) :
    (store b.buffer kPrependSize b.readable).length = b.buffer.length := by
  have hpre := b.prepend_le_size
  refine length_store ?_
  rw [length_readable]
  omega

/-- No sum of the two sizes wraps around. -/
theorem raw_room {b : TcpBuffer} (hb : b.Allocated) {len : Nat} (hlen : len ≤ kMaxBufferSize) :
    sizeAdd b.raw.writeAble b.raw.prependAble ≥ sizeAdd len kPrependSize ↔
      b.writeAble + b.prependAble ≥ len + kPrependSize := by
  have hmax : kMaxBufferSize = 67108864 := rfl
  have hpre : kPrependSize = 8 := rfl
  have h1 := b.read_le_write
  have h2 := b.write_le_size
  unfold Allocated maxVectorSize at hb
  rw [raw_writeAble hb, sizeAdd_of_lt, sizeAdd_of_lt]
  · rfl
  · omega
  · simp only [raw, RawBuffer.prependAble, writeAble]
    omega

theorem raw_makeSpace {b : TcpBuffer} (hb : b.Allocated) {len : Nat} (hlt : b.writeAble < len)
    (hlen : len ≤ kMaxBufferSize) (hfit : b.raw.MoveFits len) :
    b.raw.makeSpace len = some ((b.makeSpace len).1, (b.makeSpace len).2.raw) := by
  have hmax : kMaxBufferSize = 67108864 := rfl
  have hpre : kPrependSize = 8 := rfl
  have h1 := b.read_le_write
  have h2 := b.write_le_size
  unfold RawBuffer.makeSpace makeSpace
  simp only [raw_room hb hlen, raw_readAble hb]
  split
  · rfl
  split
  · have hroomy : kPrependSize + b.readAble ≤ b.buffer.length := by
      simp only [writeAble, prependAble, readAble] at *
      omega
    rw [raw_buffer, raw_readIndex, move_up b (Or.inr hroomy) fun hzero => Or.inl (by omega)]
    have hsame : b.capacity = (store b.buffer kPrependSize b.readable).length :=
      (store_readable_length (Or.inr hroomy)).symm
    simp only [relocate, raw, Option.map_some, hsame, resize_self]
  split
  · rfl
  rename_i hzero hcompact hgranted
  have hgrows : b.raw.Grows len := by
    refine ⟨?_, ?_, ?_⟩
    · rw [raw_writeAble hb]
      exact hlt
    · rw [raw_writeAble hb]
      exact Nat.lt_of_not_le hcompact
    · rw [raw_readAble hb]
      omega
  have hmove := hfit hgrows
  rw [raw_readAble hb] at hmove
  rw [show b.raw.buffer.length = b.capacity from rfl, raw_buffer, raw_readIndex,
    move_up b hmove fun hno => by omega]
  by_cases hsize : max (kPrependSize + b.readAble + len) (min (b.capacity * 2) kMaxBufferSize) >
      kMaxBufferSize
  · rw [if_pos hsize, if_pos hsize]
  · rw [if_neg hsize, if_neg hsize, Option.map_some]
    have hgrown : ∀ n, kPrependSize + b.readAble ≤ n → n ≤ kMaxBufferSize →
        (RawBuffer.writeAble ⟨resize (store b.buffer kPrependSize b.readable) n 0, kPrependSize,
          kPrependSize + b.readAble⟩) = n - (kPrependSize + b.readAble) := by
      intro n hn hle
      unfold RawBuffer.writeAble
      rw [length_resize]
      exact sizeSub_of_le hn (by omega)
    rw [hgrown _ (by omega) (Nat.not_lt.mp hsize), relocate_writeAble]
    rfl

/-- Where the readable bytes do not fit, `makeSpace` writes behind the end of the storage. -/
theorem raw_makeSpace_none {b : TcpBuffer} (hb : b.Allocated) {len : Nat}
    (hfit : ¬ b.raw.MoveFits len) : b.raw.makeSpace len = none := by
  have hmax : kMaxBufferSize = 67108864 := rfl
  have hpre : kPrependSize = 8 := rfl
  have h1 := b.read_le_write
  have h2 := b.write_le_size
  obtain ⟨⟨hlt, hcompact, hgranted⟩, hmove⟩ := Classical.not_imp.mp hfit
  rw [raw_writeAble hb] at hlt hcompact
  rw [raw_readAble hb] at hgranted hmove
  simp only [raw, RawBuffer.prependAble, not_or, Nat.not_le] at hcompact hmove
  have hroom : ¬ sizeAdd b.raw.writeAble b.raw.prependAble ≥ sizeAdd len kPrependSize :=
    mt (raw_room hb (by omega)).mp (Nat.not_le.mpr hcompact)
  have hsize : ¬ max (kPrependSize + b.readAble + len)
      (min (b.raw.buffer.length * 2) kMaxBufferSize) > kMaxBufferSize := by omega
  have hlow : b.readIndex ≠ kPrependSize ∧ b.readAble > 0 := by
    have := b.readIndex_add_readAble_le
    omega
  unfold RawBuffer.makeSpace
  rw [raw_readAble hb, if_neg (by omega), if_neg hroom, if_neg (by omega), if_neg hsize]
  rw [raw_readIndex, if_pos hlow, raw_buffer, move_of_lt b.readIndex_add_readAble_le hmove.2]
  rfl

theorem relocate_allocated (b : TcpBuffer) {size : Nat} (h : kPrependSize + b.readAble ≤ size)
    (hsize : size ≤ maxVectorSize) : (b.relocate size h).Allocated := by
  unfold Allocated relocate
  rw [length_resize]
  exact hsize

theorem makeSpace_allocated {b : TcpBuffer} (hb : b.Allocated) (len : Nat) :
    (b.makeSpace len).2.Allocated := by
  have hmax : kMaxBufferSize = 67108864 := rfl
  unfold makeSpace
  split
  · exact hb
  split
  · dsimp only
    exact relocate_allocated b _ hb
  split
  · exact hb
  dsimp only
  split
  · exact hb
  · rename_i hsize
    dsimp only
    exact relocate_allocated b _ (by unfold maxVectorSize; omega)

theorem raw_ensureWritable {b : TcpBuffer} (hb : b.Allocated) {len : Nat}
    (hfit : b.raw.MoveFits len) :
    b.raw.ensureWritable len =
      some ((b.ensureWritable len).1, (b.ensureWritable len).2.raw) := by
  unfold RawBuffer.ensureWritable ensureWritable
  rw [raw_readAble hb, raw_writeAble hb]
  split
  · rfl
  rename_i hgranted
  split
  · rename_i hlt
    exact raw_makeSpace hb hlt (by omega) hfit
  · rfl

theorem raw_ensureWritable_none {b : TcpBuffer} (hb : b.Allocated) {len : Nat}
    (hfit : ¬ b.raw.MoveFits len) : b.raw.ensureWritable len = none := by
  obtain ⟨⟨hlt, -, hgranted⟩, -⟩ := Classical.not_imp.mp hfit
  unfold RawBuffer.ensureWritable
  rw [if_neg (by omega), if_pos hlt]
  exact raw_makeSpace_none hb hfit

theorem ensureWritable_allocated {b : TcpBuffer} (hb : b.Allocated) (len : Nat) :
    (b.ensureWritable len).2.Allocated := by
  unfold ensureWritable
  split
  · exact hb
  split
  · exact makeSpace_allocated hb len
  · exact hb

/-- What `memcpy` and the new write index make of the raw buffer. -/
theorem raw_poke (b : TcpBuffer) (data : Bytes) (h : data.length ≤ b.writeAble) :
    save b.buffer b.writeIndex data = some (store b.buffer b.writeIndex data) ∧
      ((b.poke data h).moveWriteIndex data.length).raw =
        ⟨store b.buffer b.writeIndex data, b.readIndex, b.writeIndex + data.length⟩ ∧
      (b.Allocated → ((b.poke data h).moveWriteIndex data.length).Allocated) := by
  have h2 := b.write_le_size
  have hrange : b.writeIndex + data.length ≤ b.buffer.length := by
    unfold writeAble at h
    omega
  have hroom : (b.poke data h).writeAble = b.writeAble := by
    simp [poke, writeAble, length_store hrange]
  refine ⟨save_of_le hrange, ?_, fun hb => ?_⟩
  · simp only [raw, moveWriteIndex, hroom, Nat.min_eq_left h]
    rfl
  · show (store b.buffer b.writeIndex data).length ≤ maxVectorSize
    rw [length_store hrange]
    exact hb

theorem raw_append {b : TcpBuffer} (hb : b.Allocated) {data : Bytes}
    (hfit : b.raw.MoveFits data.length) :
    b.raw.append data = some ((b.append data).1, (b.append data).2.raw) := by
  unfold RawBuffer.append append
  split
  · rfl
  rw [raw_ensureWritable hb hfit, Option.bind_some]
  split
  · rename_i hok
    obtain ⟨hsave, hraw, -⟩ := raw_poke _ data (ensureWritable_writeAble hok)
    rw [hraw, raw_buffer, raw_writeIndex, hsave]
    rfl
  · rfl

theorem raw_append_none {b : TcpBuffer} (hb : b.Allocated) {data : Bytes}
    (hfit : ¬ b.raw.MoveFits data.length) : b.raw.append data = none := by
  have hne : data.length ≠ 0 := by
    have := (Classical.not_imp.mp hfit).1.1
    omega
  unfold RawBuffer.append
  rw [if_neg hne, raw_ensureWritable_none hb hfit]
  rfl

theorem append_allocated {b : TcpBuffer} (hb : b.Allocated) (data : Bytes) :
    (b.append data).2.Allocated := by
  unfold append
  split
  · exact hb
  split
  · rename_i hok
    exact (raw_poke _ data (ensureWritable_writeAble hok)).2.2 (ensureWritable_allocated hb _)
  · exact ensureWritable_allocated hb _

theorem raw_moveWriteIndex {b : TcpBuffer} (hb : b.Allocated) (size : Nat) :
    b.raw.moveWriteIndex size = (b.moveWriteIndex size).raw := by
  unfold RawBuffer.moveWriteIndex
  rw [raw_writeAble hb]
  rfl

theorem poke_allocated {b : TcpBuffer} (hb : b.Allocated) {data : Bytes}
    (h : data.length ≤ b.writeAble) : (b.poke data h).Allocated := by
  have h2 := b.write_le_size
  unfold writeAble at h
  unfold Allocated poke
  rw [length_store (by omega)]
  exact hb

/-- A granted `fill` appends what was written, and a refused one changes nothing. -/
theorem raw_fill {b : TcpBuffer} (hb : b.Allocated) {len : Nat} (data : Bytes)
    (hfit : b.raw.MoveFits len) :
    ∃ ok, ∃ t : TcpBuffer, b.raw.fill len data = some (ok, t.raw) ∧ t.Allocated ∧
      t.readable = if ok then b.readable ++ data.take len else b.readable := by
  have hall := ensureWritable_allocated hb len
  unfold RawBuffer.fill
  rw [raw_ensureWritable hb hfit, Option.bind_some]
  split
  · rename_i hok
    have hroom : (data.take len).length ≤ (b.ensureWritable len).2.writeAble := by
      have := ensureWritable_writeAble hok
      rw [List.length_take]
      omega
    obtain ⟨hsave, -, hkept⟩ := raw_poke _ (data.take len) hroom
    refine ⟨true, ((b.ensureWritable len).2.poke (data.take len) hroom).moveWriteIndex
      (data.take len).length, ?_, hkept hall, ?_⟩
    · rw [raw_buffer, raw_writeIndex, hsave]
      exact congrArg (fun r => some (true, r)) (raw_moveWriteIndex (poke_allocated hall hroom) _)
    · rw [if_pos rfl, poke_readable, ensureWritable_readable]
  · rename_i hno
    exact ⟨false, (b.ensureWritable len).2, rfl, hall, ensureWritable_readable b len⟩

theorem raw_fill_none {b : TcpBuffer} (hb : b.Allocated) {len : Nat} (data : Bytes)
    (hfit : ¬ b.raw.MoveFits len) : b.raw.fill len data = none := by
  unfold RawBuffer.fill
  rw [raw_ensureWritable_none hb hfit]
  rfl

theorem raw_prepend (b : TcpBuffer) (data : Bytes) :
    b.raw.prepend data = some (b.prepend data).raw := by
  have h1 := b.read_le_write
  have h2 := b.write_le_size
  unfold RawBuffer.prepend prepend
  rw [raw_prependAble]
  by_cases hfit : data.length ≤ b.prependAble
  · have hrange : b.readIndex - data.length + data.length ≤ b.buffer.length := by
      unfold prependAble at hfit
      omega
    rw [dif_pos hfit, if_neg (Nat.not_lt.mpr hfit)]
    dsimp only
    rw [raw_buffer, raw_readIndex, save_of_le hrange]
    rfl
  · rw [dif_neg hfit, if_pos (Nat.lt_of_not_le hfit)]

theorem prepend_allocated {b : TcpBuffer} (hb : b.Allocated) (data : Bytes) :
    (b.prepend data).Allocated := by
  have h1 := b.read_le_write
  have h2 := b.write_le_size
  unfold prepend
  split
  · rename_i hfit
    unfold prependAble at hfit
    unfold Allocated
    rw [length_store (by omega)]
    exact hb
  · exact hb

theorem raw_consume {b : TcpBuffer} (hb : b.Allocated) (len : Nat) :
    b.raw.consume len = (b.consume len).raw := by
  unfold RawBuffer.consume consume
  rw [raw_readAble hb]
  split <;> rfl

theorem consume_allocated {b : TcpBuffer} (hb : b.Allocated) (len : Nat) :
    (b.consume len).Allocated := by
  unfold consume
  split <;> exact hb

theorem raw_retrieve {b : TcpBuffer} (hb : b.Allocated) (len : Nat) :
    b.raw.retrieve len = some ((b.retrieve len).1, (b.retrieve len).2.raw) := by
  have hrange := b.readIndex_add_readAble_le
  unfold RawBuffer.retrieve
  dsimp only
  rw [raw_readAble hb, raw_buffer, raw_readIndex, load_of_le (by omega), raw_consume hb]
  rfl

theorem raw_adjustBuffer {b : TcpBuffer} (hb : b.Allocated) :
    b.raw.adjustBuffer = some b.adjustBuffer.raw := by
  have hrange := b.readIndex_add_readAble_le
  unfold RawBuffer.adjustBuffer adjustBuffer
  rw [raw_readAble hb, raw_prependAble]
  by_cases hfar : b.prependAble > kPrependSize ∧ b.prependAble > b.readAble / 2
  · have hroom : kPrependSize + b.readAble ≤ b.buffer.length := by
      unfold prependAble at hfar
      omega
    have hsame : b.capacity = (store b.buffer kPrependSize b.readable).length :=
      (store_readable_length (Or.inr hroom)).symm
    rw [dif_pos hfar, if_pos hfar, raw_buffer, raw_readIndex, move_of_le hrange hroom]
    simp only [relocate, raw, hsame, resize_self]
    rfl
  · rw [dif_neg hfar, if_neg hfar]

theorem adjustBuffer_allocated {b : TcpBuffer} (hb : b.Allocated) : b.adjustBuffer.Allocated := by
  unfold adjustBuffer
  split
  · exact relocate_allocated b _ hb
  · exact hb

/-- A `shrink` that fits keeps the readable bytes, also where it throws. -/
theorem raw_shrink {b : TcpBuffer} (hb : b.Allocated) {reserve : UInt64}
    (hfit : b.raw.ShrinkFits reserve) :
    ∃ t : TcpBuffer, b.raw.shrink reserve = some t.raw ∧ t.Allocated ∧
      t.readable = b.readable := by
  have hrange := b.readIndex_add_readAble_le
  have hb' : b.buffer.length ≤ 2 ^ 63 - 1 := hb
  have hpre : kPrependSize = 8 := rfl
  unfold RawBuffer.shrink
  dsimp only
  by_cases hmax : b.raw.shrunkSize reserve ≤ maxVectorSize
  · have hsum := hfit hmax
    rw [raw_readAble hb] at hsum
    have hsize : b.raw.shrunkSize reserve = kPrependSize + b.readAble + reserve.toNat := by
      unfold RawBuffer.shrunkSize sizeAdd
      rw [raw_readAble hb]
      omega
    have hfits : kPrependSize + b.readAble ≤ kPrependSize + b.readAble + reserve.toNat := by omega
    rw [if_pos hmax, raw_readAble hb, raw_buffer, raw_readIndex, load_of_le hrange]
    rw [hsize] at hmax ⊢
    refine ⟨b.shrink reserve.toNat, ?_, ?_, shrink_readable b _⟩
    · unfold shrink resizeBuffer
      rw [dif_pos hfits, Option.bind_some, save_of_le]
      · rfl
      · rw [List.length_replicate, length_slice_of_le hrange]
        exact hfits
    · unfold Allocated shrink resizeBuffer
      rw [dif_pos hfits, length_store]
      · rw [List.length_replicate]
        exact hmax
      · rw [List.length_replicate, length_readable]
        exact hfits
  · rw [if_neg hmax]
    exact ⟨b, rfl, hb, rfl⟩

/-- One whose sum wraps around copies behind the end of the storage it has asked for. -/
theorem raw_shrink_none {b : TcpBuffer} (hb : b.Allocated) {reserve : UInt64}
    (hfit : ¬ b.raw.ShrinkFits reserve) : b.raw.shrink reserve = none := by
  have hrange := b.readIndex_add_readAble_le
  have hreserve := reserve.toNat_lt
  have hpre : kPrependSize = 8 := rfl
  have hb' : b.buffer.length ≤ 2 ^ 63 - 1 := hb
  obtain ⟨hmax, hsum⟩ := Classical.not_imp.mp hfit
  rw [raw_readAble hb] at hsum
  have hwrap : b.raw.shrunkSize reserve < kPrependSize + b.readAble := by
    unfold RawBuffer.shrunkSize sizeAdd
    rw [raw_readAble hb]
    omega
  unfold RawBuffer.shrink
  dsimp only
  rw [if_pos hmax, raw_readAble hb, raw_buffer, raw_readIndex, load_of_le hrange,
    Option.bind_some, save_of_lt]
  · rfl
  · rw [List.length_replicate, length_slice_of_le hrange]
    exact hwrap

/-- Whether the move fits depends on the indices and the size of the storage. -/
theorem moveFits_congr {m m' : Bytes} (h : m.length = m'.length) (r w len : Nat) :
    RawBuffer.MoveFits ⟨m, r, w⟩ len ↔ RawBuffer.MoveFits ⟨m', r, w⟩ len := by
  unfold RawBuffer.MoveFits RawBuffer.Grows RawBuffer.writeAble RawBuffer.prependAble
    RawBuffer.readAble
  rw [h]

theorem length_store_take (b : TcpBuffer) (data : Bytes) :
    (store b.buffer b.writeIndex (data.take b.writeAble)).length = b.buffer.length := by
  have h2 := b.write_le_size
  have htake := List.length_take_le b.writeAble data
  refine length_store ?_
  unfold writeAble at htake ⊢
  omega

/-- The buffer behind a `readv` that has filled the writable bytes. -/
theorem raw_filled (b : TcpBuffer) {data : Bytes} (h : b.writeAble < data.length)
    (htake : (data.take b.writeAble).length ≤ b.writeAble) :
    ((b.poke (data.take b.writeAble) htake).moveWriteIndex (data.take b.writeAble).length).raw =
      ⟨store b.buffer b.writeIndex (data.take b.writeAble), b.readIndex,
        (store b.buffer b.writeIndex (data.take b.writeAble)).length⟩ := by
  have h2 := b.write_le_size
  have hlen : (data.take b.writeAble).length = b.writeAble := by
    rw [List.length_take]
    omega
  have hend : b.writeIndex + b.writeAble = b.buffer.length := by
    unfold writeAble
    omega
  rw [(raw_poke b _ htake).2.1, length_store_take, hlen, hend]

/-- What `readv` has read goes behind the write index, and the rest is appended. -/
theorem raw_readFromFd {b : TcpBuffer} (hb : b.Allocated) (r : Except Errno Bytes)
    (hfit : ∀ data, r = .ok data → b.writeAble < data.length →
      RawBuffer.MoveFits ⟨b.buffer, b.readIndex, b.buffer.length⟩ (data.length - b.writeAble)) :
    b.raw.readFromFd r = some ((b.readFromFd r).1, (b.readFromFd r).2.raw) ∧
      (b.readFromFd r).2.Allocated := by
  cases r with
  | error e => exact ⟨rfl, hb⟩
  | ok data =>
    have htake : (data.take b.writeAble).length ≤ b.writeAble := List.length_take_le _ _
    obtain ⟨hsave, -, hkept⟩ := raw_poke b _ htake
    unfold RawBuffer.readFromFd readFromFd
    dsimp only
    rw [raw_writeAble hb, raw_buffer, raw_writeIndex, hsave, Option.bind_some]
    by_cases hle : data.length ≤ b.writeAble
    · obtain ⟨-, hraw, hall⟩ := raw_poke b data hle
      rw [if_pos hle, dif_pos hle, List.take_of_length_le hle]
      dsimp only
      rw [hraw]
      exact ⟨rfl, hall hb⟩
    · have hlt := Nat.lt_of_not_le hle
      have hfilled := raw_filled b hlt htake
      have hlen := length_store_take b data
      have hmove := hfit data rfl hlt
      rw [← moveFits_congr hlen, ← hlen, ← List.length_drop, ← hfilled] at hmove
      have happend := raw_append (hkept hb) hmove
      rw [if_neg hle, dif_neg hle, raw_readIndex, ← hfilled, happend, Option.map_some]
      dsimp only
      split
      · exact ⟨rfl, append_allocated (hkept hb) _⟩
      · exact ⟨rfl, append_allocated (hkept hb) _⟩

theorem raw_readFromFd_none {b : TcpBuffer} (hb : b.Allocated) {data : Bytes}
    (hlt : b.writeAble < data.length)
    (hfit : ¬ RawBuffer.MoveFits ⟨b.buffer, b.readIndex, b.buffer.length⟩
      (data.length - b.writeAble)) : b.raw.readFromFd (.ok data) = none := by
  have htake : (data.take b.writeAble).length ≤ b.writeAble := List.length_take_le _ _
  obtain ⟨hsave, -, hkept⟩ := raw_poke b _ htake
  have hfilled := raw_filled b hlt htake
  have hlen := length_store_take b data
  rw [← moveFits_congr hlen, ← hlen, ← List.length_drop, ← hfilled] at hfit
  unfold RawBuffer.readFromFd
  dsimp only
  rw [raw_writeAble hb, raw_buffer, raw_writeIndex, hsave, Option.bind_some,
    if_neg (Nat.not_le.mpr hlt), raw_readIndex, ← hfilled, raw_append_none (hkept hb) hfit]
  rfl

/-- `writev` gets the readable bytes in one segment. -/
theorem raw_writeToFd {b : TcpBuffer} (hb : b.Allocated) (r : Except Errno Nat) :
    ∃ sent, b.raw.writeToFd r = some ((b.writeToFd r).1, sent, (b.writeToFd r).2.raw) ∧
      (b.writeToFd r).2.Allocated ∧
      ∀ n, (b.writeToFd r).1 = .ok n → sent = b.readable.take n := by
  have hrange := b.readIndex_add_readAble_le
  have h1 := b.read_le_write
  have h2 := b.write_le_size
  unfold RawBuffer.writeToFd writeToFd
  dsimp only
  rw [raw_readAble hb]
  by_cases hempty : b.readAble = 0
  · rw [if_pos hempty, if_pos hempty]
    refine ⟨[], rfl, hb, fun n _ => ?_⟩
    rw [(readable_eq_nil_iff b).mpr hempty, List.take_nil]
  · have hfirst : min (sizeSub b.raw.buffer.length b.raw.readIndex) b.readAble = b.readAble := by
      unfold Allocated maxVectorSize at hb
      rw [raw_buffer, raw_readIndex, sizeSub_of_le (by omega) (by omega)]
      omega
    rw [if_neg hempty, if_neg hempty, hfirst, Nat.sub_self, raw_buffer, raw_readIndex,
      load_of_le hrange, load_of_le (Nat.zero_le _)]
    cases r with
    | error e => exact ⟨[], rfl, hb, fun n hn => absurd hn (by simp)⟩
    | ok n =>
      refine ⟨b.readable.take n, ?_, consume_allocated hb n, fun m hm => ?_⟩
      · have hnone : slice b.buffer 0 0 = [] := List.take_zero
        rw [Option.bind_some, Option.map_some, hnone]
        dsimp only
        rw [List.append_nil, raw_consume hb]
        rfl
      · rw [Except.ok.inj hm]

end TcpBuffer

end RocketRpc.Tcp
