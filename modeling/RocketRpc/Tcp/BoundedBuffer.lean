import RocketRpc.Lib.Checked
import RocketRpc.Tcp.RawBuffer

/-
  Buffers within their limits.

  A buffer that nobody prepends to keeps its read index at `kPrependSize` or behind it
  (`Unprepended`), and one that only grows by `append` and `resizeBuffer` stays at
  `kMaxBufferSize` or below (`Bounded`).
  On such a buffer `ensureWritable` and `makeSpace` are computed once more with sums, differences
  and products that must not wrap around; they give what the raw buffer gives
  (`checkedMakeSpace_eq`). `append_all_or_nothing` is the exact condition under which an
  `append` succeeds, and says that it leaves the buffer alone where it does not.
-/

namespace RocketRpc.Tcp

open Storage

/-! ## The operations without wrap-around -/

namespace RawBuffer

def checkedReadAble (b : RawBuffer) : Option Nat := Checked.sub b.writeIndex b.readIndex

def checkedWriteAble (b : RawBuffer) : Option Nat := Checked.sub b.buffer.length b.writeIndex

def checkedMakeSpace (b : RawBuffer) (len : Nat) : Option (Bool × RawBuffer) :=
  if len = 0 then some (true, b)
  else do
    let writable ← b.checkedWriteAble
    let room ← Checked.add 64 writable b.prependAble
    let needed ← Checked.add 64 len kPrependSize
    let readable ← b.checkedReadAble
    if room ≥ needed then do
      let buffer ←
        (if readable > 0 then move b.buffer kPrependSize b.readIndex readable else some b.buffer)
      let writeIndex ← Checked.add 64 kPrependSize readable
      some (true, ⟨buffer, kPrependSize, writeIndex⟩)
    else do
      let most ← Checked.sub kMaxBufferSize kPrependSize
      if readable > most then some (false, b)
      else do
        let left ← Checked.sub most readable
        if len > left then some (false, b)
        else do
          let kept ← Checked.add 64 kPrependSize readable
          let required ← Checked.add 64 kept len
          let twice ← Checked.mul 64 b.buffer.length 2
          let newSize := max required (min twice kMaxBufferSize)
          if newSize > kMaxBufferSize then some (false, b)
          else do
            let buffer ←
              (if b.readIndex ≠ kPrependSize ∧ readable > 0 then
                move b.buffer kPrependSize b.readIndex readable
              else some b.buffer)
            let writeIndex ← Checked.add 64 kPrependSize readable
            let grown : RawBuffer := ⟨resize buffer newSize 0, kPrependSize, writeIndex⟩
            let writable ← grown.checkedWriteAble
            some (decide (writable ≥ len), grown)

def checkedEnsureWritable (b : RawBuffer) (len : Nat) : Option (Bool × RawBuffer) :=
  if len > kMaxBufferSize then some (false, b)
  else do
    let readable ← b.checkedReadAble
    let most ← Checked.sub kMaxBufferSize len
    if readable > most then some (false, b)
    else do
      let writable ← b.checkedWriteAble
      if writable < len then b.checkedMakeSpace len else some (true, b)

def checkedAppend (b : RawBuffer) (data : Bytes) : Option (Bool × RawBuffer) :=
  if data.length = 0 then some (true, b)
  else do
    let r ← b.checkedEnsureWritable data.length
    if r.1 then do
      let buffer ← save r.2.buffer r.2.writeIndex data
      let writeIndex ← Checked.add 64 r.2.writeIndex data.length
      some (true, { r.2 with buffer, writeIndex })
    else some (false, r.2)

def checkedMoveWriteIndex (b : RawBuffer) (size : Nat) : Option RawBuffer := do
  let writable ← b.checkedWriteAble
  let writeIndex ← Checked.add 64 b.writeIndex (min size writable)
  some { b with writeIndex }

/-- `resizeBuffer(new_size)`; nothing where the readable bytes overrun the new storage. -/
def checkedResizeBuffer (b : RawBuffer) (newSize : Nat) : Option RawBuffer := do
  let readable ← b.checkedReadAble
  let data ← load b.buffer b.readIndex readable
  let tmp ← save (List.replicate newSize 0) kPrependSize data
  let writeIndex ← Checked.add 64 kPrependSize readable
  some ⟨tmp, kPrependSize, writeIndex⟩

/-- `readFromFd`, given the bytes that `readv` read, or `errno`; nothing where these overrun the
    storage or the extra buffer. -/
def checkedReadFromFd (b : RawBuffer) (r : Except Errno Bytes) :
    Option (Except Errno Nat × RawBuffer) := do
  let writable ← b.checkedWriteAble
  match r with
  | .error e => some (.error e, b)
  | .ok data => do
    let buffer ← save b.buffer b.writeIndex (data.take writable)
    if data.length ≤ writable then do
      let writeIndex ← Checked.add 64 b.writeIndex data.length
      some (.ok data.length, { b with buffer, writeIndex })
    else do
      let rest ← Checked.sub data.length writable
      if rest > TcpBuffer.kExtraBufferSize then none
      else do
        let r ← checkedAppend { b with buffer, writeIndex := buffer.length } (data.drop writable)
        some (if r.1 then .ok data.length else .error .EMSGSIZE, r.2)

end RawBuffer

/-! ## Bounded buffers -/

namespace TcpBuffer

/-- Nobody has prepended to the buffer. -/
structure Unprepended (b : TcpBuffer) : Prop where
  allocated : b.Allocated
  prepend_le_read : kPrependSize ≤ b.readIndex

namespace Unprepended

variable {b : TcpBuffer} (hb : b.Unprepended)

include hb

/-- The readable bytes are behind the first `kPrependSize`, so that they can always move there. -/
theorem moveFits (len : Nat) : b.raw.MoveFits len := by
  have h := hb.prepend_le_read
  have h1 := b.read_le_write
  have h2 := b.write_le_size
  intro _
  right
  rw [raw_readAble hb.allocated]
  simp only [raw, readAble]
  omega

theorem ensureWritable (len : Nat) : (b.ensureWritable len).2.Unprepended := by
  refine ⟨ensureWritable_allocated hb.allocated len, ?_⟩
  have h := hb.prepend_le_read
  unfold TcpBuffer.ensureWritable TcpBuffer.makeSpace
  split
  · exact h
  split
  · split
    · exact h
    split
    · exact Nat.le_refl _
    split
    · exact h
    dsimp only
    split
    · exact h
    · exact Nat.le_refl _
  · exact h

theorem poke {data : Bytes} (h : data.length ≤ b.writeAble) :
    ((b.poke data h).moveWriteIndex data.length).Unprepended :=
  ⟨(raw_poke b data h).2.2 hb.allocated, hb.prepend_le_read⟩

end Unprepended

/-- Nobody has prepended to the buffer, and it has not grown beyond the maximum. -/
structure Bounded (b : TcpBuffer) : Prop where
  prepend_le_read : kPrependSize ≤ b.readIndex
  size_le : b.buffer.length ≤ kMaxBufferSize

namespace Bounded

theorem new {size : Nat} (h : kPrependSize + size ≤ kMaxBufferSize) :
    (TcpBuffer.new size).Bounded :=
  ⟨Nat.le_refl _, by simpa [TcpBuffer.new] using h⟩

variable {b : TcpBuffer} (hb : b.Bounded)

include hb

theorem allocated : b.Allocated := by
  have h := hb.size_le
  unfold Allocated maxVectorSize
  unfold kMaxBufferSize at h
  omega

/-- The readable bytes end `kPrependSize` in front of the maximum. -/
theorem readAble_add_le : kPrependSize + b.readAble + b.writeAble ≤ kMaxBufferSize := by
  have h := hb.prepend_le_read
  have h' := hb.size_le
  have h1 := b.read_le_write
  have h2 := b.write_le_size
  unfold readAble writeAble
  omega

theorem unprepended : b.Unprepended := ⟨hb.allocated, hb.prepend_le_read⟩

omit hb in
theorem relocate {size : Nat} (h : kPrependSize + b.readAble ≤ size)
    (hsize : size ≤ kMaxBufferSize) : (b.relocate size h).Bounded := by
  refine ⟨Nat.le_refl _, ?_⟩
  unfold TcpBuffer.relocate
  rw [length_resize]
  exact hsize

theorem makeSpace (len : Nat) : (b.makeSpace len).2.Bounded := by
  unfold TcpBuffer.makeSpace
  split
  · exact hb
  split
  · dsimp only
    exact relocate _ hb.size_le
  split
  · exact hb
  dsimp only
  split
  · exact hb
  · rename_i hsize
    dsimp only
    exact relocate _ (Nat.not_lt.mp hsize)

theorem ensureWritable (len : Nat) : (b.ensureWritable len).2.Bounded := by
  unfold TcpBuffer.ensureWritable
  split
  · exact hb
  split
  · exact hb.makeSpace len
  · exact hb

theorem poke {data : Bytes} (h : data.length ≤ b.writeAble) (size : Nat) :
    ((b.poke data h).moveWriteIndex size).Bounded := by
  have h2 := b.write_le_size
  unfold writeAble at h
  refine ⟨hb.prepend_le_read, ?_⟩
  show (store b.buffer b.writeIndex data).length ≤ kMaxBufferSize
  rw [length_store (by omega)]
  exact hb.size_le

theorem append (data : Bytes) : (b.append data).2.Bounded := by
  unfold TcpBuffer.append
  split
  · exact hb
  split
  · exact (hb.ensureWritable _).poke _ _
  · exact hb.ensureWritable _

theorem consume (len : Nat) : (b.consume len).Bounded := by
  unfold TcpBuffer.consume
  split
  · exact ⟨Nat.le_trans hb.prepend_le_read (Nat.le_add_right _ _), hb.size_le⟩
  · exact ⟨Nat.le_refl _, hb.size_le⟩

theorem resizeBuffer {newSize : Nat} (h : newSize ≤ kMaxBufferSize) :
    (b.resizeBuffer newSize).Bounded := by
  unfold TcpBuffer.resizeBuffer
  split
  · rename_i hfits
    refine ⟨Nat.le_refl _, ?_⟩
    show (store (List.replicate newSize 0) kPrependSize b.readable).length ≤ kMaxBufferSize
    rw [length_store (by rw [List.length_replicate, length_readable]; exact hfits),
      List.length_replicate]
    exact h
  · exact hb

theorem readFromFd (r : Except Errno Bytes) : (b.readFromFd r).2.Bounded := by
  unfold TcpBuffer.readFromFd
  cases r with
  | error e => exact hb
  | ok data =>
    dsimp only
    split
    · exact hb.poke _ _
    split
    · exact (hb.poke _ _).append _
    · exact (hb.poke _ _).append _

end Bounded

/-- Exactly when a request is granted: within the maximum, with room behind the write index, or
    with enough room when the readable bytes move up, or when the storage grows. -/
theorem ensureWritable_iff {b : TcpBuffer} {len : Nat} :
    (b.ensureWritable len).1 = true ↔ b.readAble + len ≤ kMaxBufferSize ∧
      (len ≤ b.writeAble ∨ len + kPrependSize ≤ b.writeAble + b.prependAble ∨
        kPrependSize + b.readAble + len ≤ kMaxBufferSize) := by
  have hpre : kPrependSize = 8 := rfl
  have hmax : kMaxBufferSize = 67108864 := rfl
  constructor
  · intro h
    unfold ensureWritable at h
    split at h
    · exact absurd h (by simp)
    rename_i hgranted
    refine ⟨by omega, ?_⟩
    split at h
    · unfold makeSpace at h
      split at h
      · omega
      split at h
      · rename_i hroom
        exact Or.inr (Or.inl hroom)
      split at h
      · exact absurd h (by simp)
      · omega
    · omega
  · rintro ⟨hmost, hroom⟩
    unfold ensureWritable
    rw [if_neg (by omega)]
    split
    · rename_i hlt
      rcases hroom with hroom | hroom | hroom
      · omega
      · unfold makeSpace
        rw [if_neg (by omega), dif_pos hroom]
      · have h := ensureWritable_of_le hroom
        unfold ensureWritable at h
        rwa [if_neg (by omega), if_pos hlt] at h
    · rfl

/-- The size up to which the storage can be made larger, unless it is beyond it from the start. -/
def limit (b : TcpBuffer) : Nat := max b.capacity kMaxBufferSize

theorem length_relocate (b : TcpBuffer) {size : Nat} (h : kPrependSize + b.readAble ≤ size) :
    (b.relocate size h).buffer.length = size := length_resize _ _ _

theorem limit_ensureWritable (b : TcpBuffer) (len : Nat) :
    (b.ensureWritable len).2.limit = b.limit := by
  have h1 := b.read_le_write
  have h2 := b.write_le_size
  unfold ensureWritable makeSpace
  split
  · rfl
  split
  · split
    · rfl
    split
    · simp only [limit, capacity, length_relocate]
    rename_i hcompact
    split
    · rfl
    rename_i hgranted
    dsimp only
    split
    · rfl
    · -- the storage grows, so it was not beyond the maximum
      rename_i hsize
      simp only [limit, capacity, length_relocate]
      simp only [writeAble, prependAble, readAble, capacity] at *
      omega
  · rfl

/-- A request is granted exactly when the bytes fit the maximum and the storage, or what the
    storage can be made. -/
theorem Unprepended.ensureWritable_iff {b : TcpBuffer} (hb : b.Unprepended) {len : Nat} :
    (b.ensureWritable len).1 = true ↔
      b.readAble + len ≤ kMaxBufferSize ∧ kPrependSize + b.readAble + len ≤ b.limit := by
  have h := hb.prepend_le_read
  have h1 := b.read_le_write
  have h2 := b.write_le_size
  rw [TcpBuffer.ensureWritable_iff]
  unfold limit writeAble prependAble readAble capacity
  omega

theorem append_eq_true_iff {b : TcpBuffer} {data : Bytes} (hne : data ≠ []) :
    (b.append data).1 = true ↔ (b.ensureWritable data.length).1 = true := by
  unfold append
  rw [if_neg (mt List.length_eq_zero_iff.mp hne)]
  split
  · rename_i h
    simp [h]
  · rename_i h
    simp [h]

/-! ## No operation wraps around -/

theorem checkedReadAble_eq (b : TcpBuffer) : b.raw.checkedReadAble = some b.readAble :=
  Checked.sub_of_le b.read_le_write

theorem checkedWriteAble_eq (b : TcpBuffer) : b.raw.checkedWriteAble = some b.writeAble :=
  Checked.sub_of_le b.write_le_size

theorem checkedMoveWriteIndex_eq {b : TcpBuffer} (hb : b.Allocated) (size : Nat) :
    b.raw.checkedMoveWriteIndex size = some (b.moveWriteIndex size).raw := by
  have h2 := b.write_le_size
  have hsize : b.buffer.length ≤ 2 ^ 63 - 1 := hb
  have hindex : Checked.add 64 b.writeIndex (min size b.writeAble) =
      some (b.writeIndex + min size b.writeAble) := by
    unfold writeAble
    exact Checked.add_of_lt (by omega)
  unfold RawBuffer.checkedMoveWriteIndex
  simp only [checkedWriteAble_eq, Option.bind_eq_bind, Option.bind_some, raw_writeIndex, hindex]
  rfl

section Unprepended

variable {b : TcpBuffer} (hb : b.Unprepended)

include hb

theorem checkedMakeSpace_eq {len : Nat} (hlen : len ≤ kMaxBufferSize) :
    b.raw.checkedMakeSpace len = b.raw.makeSpace len := by
  have hpre : kPrependSize = 8 := rfl
  have hmax : kMaxBufferSize = 67108864 := rfl
  have hsize : b.buffer.length ≤ 2 ^ 63 - 1 := hb.allocated
  have hread : b.raw.prependAble ≤ b.buffer.length :=
    Nat.le_trans b.read_le_write b.write_le_size
  have hreadable := b.readIndex_add_readAble_le
  have hwritable : b.writeAble ≤ b.buffer.length := Nat.sub_le _ _
  have hroom := raw_room hb.allocated hlen
  unfold RawBuffer.checkedMakeSpace RawBuffer.makeSpace
  split
  · rfl
  rw [checkedWriteAble_eq, checkedReadAble_eq, raw_readAble hb.allocated]
  have hadd : Checked.add 64 b.writeAble b.raw.prependAble =
      some (b.writeAble + b.raw.prependAble) := Checked.add_of_lt (by omega)
  have hneeded : Checked.add 64 len kPrependSize = some (len + kPrependSize) :=
    Checked.add_of_lt (by omega)
  have hkept : Checked.add 64 kPrependSize b.readAble = some (kPrependSize + b.readAble) :=
    Checked.add_of_lt (by omega)
  have hmost : Checked.sub kMaxBufferSize kPrependSize = some (kMaxBufferSize - kPrependSize) :=
    Checked.sub_of_le (by omega)
  simp only [Option.bind_eq_bind, Option.bind_some, hadd, hneeded]
  by_cases hcompact : b.writeAble + b.raw.prependAble ≥ len + kPrependSize
  · rw [if_pos hcompact, if_pos (hroom.mpr hcompact)]
    simp only [hkept, Option.bind_some, Option.map_eq_bind]
    rfl
  rw [if_neg hcompact, if_neg (mt hroom.mp hcompact)]
  simp only [hmost, Option.bind_some]
  by_cases hfull : b.readAble > kMaxBufferSize - kPrependSize
  · rw [if_pos hfull, if_pos (Or.inl hfull)]
  have hleft : Checked.sub (kMaxBufferSize - kPrependSize) b.readAble =
      some (kMaxBufferSize - kPrependSize - b.readAble) := Checked.sub_of_le (by omega)
  rw [if_neg hfull, hleft, Option.bind_some]
  by_cases hlen' : len > kMaxBufferSize - kPrependSize - b.readAble
  · rw [if_pos hlen', if_pos (Or.inr hlen')]
  have hgranted : ¬ (b.readAble > kMaxBufferSize - kPrependSize ∨
      len > kMaxBufferSize - kPrependSize - b.readAble) := by omega
  rw [if_neg hlen', if_neg hgranted]
  have hrequired : Checked.add 64 (kPrependSize + b.readAble) len =
      some (kPrependSize + b.readAble + len) := Checked.add_of_lt (by omega)
  have htwice : Checked.mul 64 b.raw.buffer.length 2 = some (b.raw.buffer.length * 2) :=
    Checked.mul_of_lt (by rw [raw_buffer]; omega)
  simp only [hkept, hrequired, htwice, Option.bind_some]
  by_cases hnew : max (kPrependSize + b.readAble + len) (min (b.raw.buffer.length * 2)
      kMaxBufferSize) > kMaxBufferSize
  · rw [if_pos hnew, if_pos hnew]
  rw [if_neg hnew, if_neg hnew, Option.map_eq_bind]
  refine congrArg _ (funext fun buffer => ?_)
  have hgrown : ∀ m : RawBuffer, m.writeIndex ≤ m.buffer.length → m.buffer.length < 2 ^ 64 →
      m.checkedWriteAble = some m.writeAble := by
    intro m hle hlt
    rw [RawBuffer.checkedWriteAble, RawBuffer.writeAble, sizeSub_of_le hle hlt]
    exact Checked.sub_of_le hle
  have hle : kPrependSize + b.readAble ≤ max (kPrependSize + b.readAble + len)
      (min (b.raw.buffer.length * 2) kMaxBufferSize) := by omega
  rw [hgrown _ (by rw [length_resize]; exact hle) (by rw [length_resize]; omega)]
  rfl

theorem checkedEnsureWritable_eq (len : Nat) :
    b.raw.checkedEnsureWritable len =
      some ((b.ensureWritable len).1, (b.ensureWritable len).2.raw) := by
  rw [← raw_ensureWritable hb.allocated (hb.moveFits len)]
  unfold RawBuffer.checkedEnsureWritable RawBuffer.ensureWritable
  rw [raw_readAble hb.allocated, raw_writeAble hb.allocated, checkedReadAble_eq,
    checkedWriteAble_eq]
  by_cases hlen : len > kMaxBufferSize
  · rw [if_pos hlen, if_pos (Or.inl hlen)]
  have hmost : Checked.sub kMaxBufferSize len = some (kMaxBufferSize - len) :=
    Checked.sub_of_le (Nat.not_lt.mp hlen)
  rw [if_neg hlen]
  simp only [Option.bind_eq_bind, Option.bind_some, hmost, hlen, false_or]
  split
  · rfl
  split
  · exact checkedMakeSpace_eq hb (Nat.not_lt.mp hlen)
  · rfl

end Unprepended

section Bounded

variable {b : TcpBuffer} (hb : b.Bounded)

include hb

theorem checkedAppend_eq (data : Bytes) :
    b.raw.checkedAppend data = some ((b.append data).1, (b.append data).2.raw) := by
  have hmax : kMaxBufferSize = 67108864 := rfl
  rw [← raw_append hb.allocated (hb.unprepended.moveFits _)]
  unfold RawBuffer.checkedAppend RawBuffer.append
  split
  · rfl
  rw [checkedEnsureWritable_eq hb.unprepended,
    raw_ensureWritable hb.allocated (hb.unprepended.moveFits _)]
  simp only [Option.bind_eq_bind, Option.bind_some]
  split
  · rename_i hok
    have hroom := ensureWritable_writeAble hok
    have hlimit := (hb.ensureWritable data.length).readAble_add_le
    have hindex : Checked.add 64 (b.ensureWritable data.length).2.writeIndex data.length =
        some ((b.ensureWritable data.length).2.writeIndex + data.length) := by
      have h1 := (b.ensureWritable data.length).2.write_le_size
      have h2 := (hb.ensureWritable data.length).size_le
      unfold writeAble at hroom
      exact Checked.add_of_lt (by omega)
    simp only [raw_writeIndex, hindex, Option.bind_some, Option.map_eq_bind]
    rfl
  · rfl

theorem checkedResizeBuffer_eq {newSize : Nat} (h : kPrependSize + b.readAble ≤ newSize) :
    b.raw.checkedResizeBuffer newSize = some (b.resizeBuffer newSize).raw := by
  have hpre : kPrependSize = 8 := rfl
  have hmax : kMaxBufferSize = 67108864 := rfl
  have hlimit := hb.readAble_add_le
  unfold RawBuffer.checkedResizeBuffer TcpBuffer.resizeBuffer
  rw [checkedReadAble_eq, dif_pos h]
  have hload : load b.raw.buffer b.raw.readIndex b.readAble = some b.readable :=
    load_of_le b.readIndex_add_readAble_le
  have hsave : save (List.replicate newSize 0) kPrependSize b.readable =
      some (store (List.replicate newSize 0) kPrependSize b.readable) :=
    save_of_le (by rw [List.length_replicate, length_readable]; exact h)
  have hindex : Checked.add 64 kPrependSize b.readAble = some (kPrependSize + b.readAble) :=
    Checked.add_of_lt (by omega)
  simp only [Option.bind_eq_bind, Option.bind_some, hload, hsave, hindex]
  rfl

theorem checkedReadFromFd_eq {r : Except Errno Bytes}
    (hlimit : ∀ data, r = .ok data → data.length ≤ b.readvLimit) :
    b.raw.checkedReadFromFd r = some ((b.readFromFd r).1, (b.readFromFd r).2.raw) := by
  have hmax : kMaxBufferSize = 67108864 := rfl
  unfold RawBuffer.checkedReadFromFd TcpBuffer.readFromFd
  rw [checkedWriteAble_eq]
  cases r with
  | error e => rfl
  | ok data =>
    have htake : (data.take b.writeAble).length ≤ b.writeAble := List.length_take_le _ _
    obtain ⟨hsave, -, -⟩ := raw_poke b _ htake
    simp only [Option.bind_eq_bind, Option.bind_some, raw_buffer, raw_writeIndex, hsave]
    split
    · rename_i hfits
      have hall : data.take b.writeAble = data := List.take_of_length_le hfits
      have hindex : Checked.add 64 b.writeIndex data.length =
          some (b.writeIndex + data.length) := by
        have h2 := b.write_le_size
        have hsize := hb.size_le
        unfold writeAble at hfits
        exact Checked.add_of_lt (by omega)
      obtain ⟨-, hpoke, -⟩ := raw_poke b data hfits
      rw [hindex, Option.bind_some, hall, hpoke]
      rfl
    · rename_i hlong
      have hextra : ¬ data.length - b.writeAble > kExtraBufferSize := by
        have h := hlimit data rfl
        unfold readvLimit at h
        split at h <;> omega
      rw [Checked.sub_of_le (by omega), Option.bind_some, if_neg hextra]
      show (RawBuffer.checkedAppend ⟨_, _, _⟩ _).bind _ = _
      rw [raw_readIndex, ← raw_filled b (Nat.lt_of_not_le hlong) htake,
        checkedAppend_eq (hb.poke htake _), Option.bind_some]
      dsimp only
      split <;> rfl

end Bounded

end TcpBuffer

/-! ## Main result -/

/-- An `append` of some bytes to a buffer within its limits computes without wrapping around and
    without leaving the storage. It succeeds exactly when the bytes fit, and has then appended
    them within the limits; otherwise it has changed nothing. -/
theorem append_all_or_nothing (b : RawBuffer) (data : Bytes) (hprepend : kPrependSize ≤ b.readIndex)
    (hread : b.readIndex ≤ b.writeIndex) (hwrite : b.writeIndex ≤ b.buffer.length)
    (hsize : b.buffer.length ≤ kMaxBufferSize) (hdata : 0 < data.length) :
    ∃ ok b', b.checkedAppend data = some (ok, b') ∧
      (ok = true ↔ b.readAble + data.length ≤ kMaxBufferSize ∧
        (b.writeAble ≥ data.length ∨
          b.readAble + data.length ≤ kMaxBufferSize - kPrependSize)) ∧
      (ok = true → b'.readable = b.readable ++ data ∧ b'.buffer.length ≤ kMaxBufferSize ∧
        kPrependSize ≤ b'.readIndex ∧ b'.readIndex ≤ b'.writeIndex ∧
        b'.writeIndex ≤ b'.buffer.length) ∧
      (ok = false → b' = b) := by
  have hpre : kPrependSize = 8 := rfl
  have hmax : kMaxBufferSize = 67108864 := rfl
  let t : TcpBuffer := ⟨b.buffer, b.readIndex, b.writeIndex, hread, hwrite, by omega⟩
  have ht : t.raw = b := rfl
  have hb : t.Bounded := ⟨hprepend, hsize⟩
  have hlimit := hb.readAble_add_le
  rw [← ht, TcpBuffer.raw_readAble hb.allocated, TcpBuffer.raw_writeAble hb.allocated,
    TcpBuffer.raw_readable hb.allocated]
  have happend := hb.append data
  refine ⟨_, _, TcpBuffer.checkedAppend_eq hb data, ?_, fun hok => ?_, fun hno => ?_⟩
  · rw [TcpBuffer.append_eq_true_iff (List.ne_nil_of_length_pos hdata),
      TcpBuffer.ensureWritable_iff]
    have hroom : t.writeAble + t.prependAble = t.buffer.length - t.readAble := by
      have h1 := t.read_le_write
      have h2 := t.write_le_size
      unfold TcpBuffer.writeAble TcpBuffer.prependAble TcpBuffer.readAble
      omega
    have hcap : t.buffer.length ≤ kMaxBufferSize := hsize
    omega
  · rw [TcpBuffer.raw_readable happend.allocated]
    exact ⟨TcpBuffer.append_readable hok, happend.size_le, happend.prepend_le_read,
      (t.append data).2.read_le_write, (t.append data).2.write_le_size⟩
  · rw [TcpBuffer.append_eq_self hno]

/-- Ten bytes are readable and two more are free, so that a third one makes the storage grow. -/
theorem append_all_or_nothing_grows :
    ∃ b', RawBuffer.checkedAppend ⟨List.replicate 20 0, 8, 18⟩ [1, 2, 3] = some (true, b') ∧
      b'.readable = List.replicate 10 0 ++ [1, 2, 3] := by
  obtain ⟨ok, b', happend, hiff, hok, -⟩ := append_all_or_nothing
    ⟨List.replicate 20 0, 8, 18⟩ [1, 2, 3] (by decide) (by decide) (by decide) (by decide)
    (by decide)
  have hyes : ok = true := hiff.mpr (by decide)
  rw [hyes] at happend
  exact ⟨b', happend, (hok hyes).1⟩

end RocketRpc.Tcp
