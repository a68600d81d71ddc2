import RocketRpc.Coder.Encoding
import RocketRpc.Tcp.BoundedBuffer

/-
  `encode` on the raw buffer.

  `checkedEncode` writes each frame behind the write index of a buffer that `ensureWritable` may
  have moved or made larger, and gives nothing where a byte would go behind the storage or a sum
  would wrap around. On a buffer that nobody has prepended to it is `encode`
  (`checkedEncode_eq`). What stops it is the first message that is too large or for which there
  is no room behind the frames in front of it (`Refused`, `encode_prefix`).
-/

namespace RocketRpc.Coder

open RocketRpc.Tcp Storage

/-! ## Encoding into the raw buffer -/

/-- The loop body of `encode`. -/
def checkedEncodeMessage (crc : Bytes → UInt32) (msg : TinyPBProtocol) (out : RawBuffer) :
    Option (Bool × TinyPBProtocol × RawBuffer) :=
  let msg := withMsgId msg
  if msg.packetSize > kMaxPacketSize ∨ msg.packetSize > 0x7FFFFFFF then some (false, msg, out)
  else do
    let r ← out.checkedEnsureWritable msg.packetSize
    if r.1 then do
      let pkLen := Int32.ofNat msg.packetSize
      let packet := writePacket crc msg pkLen
      let buffer ← save r.2.buffer r.2.writeIndex packet
      let out ← RawBuffer.checkedMoveWriteIndex { r.2 with buffer } packet.length
      some (true, written crc msg pkLen, out)
    else some (false, msg, r.2)

def checkedEncode (crc : Bytes → UInt32) :
    List AbstractProtocol → RawBuffer → Option (Bool × List AbstractProtocol × RawBuffer)
  | [], out => some (true, [], out)
  | .other :: ms, out => do
    let r ← checkedEncode crc ms out
    some (r.1, .other :: r.2.1, r.2.2)
  | .tinyPB m :: ms, out => do
    let r ← checkedEncodeMessage crc m out
    if r.1 then do
      let r' ← checkedEncode crc ms r.2.2
      some (r'.1, .tinyPB r.2.1 :: r'.2.1, r'.2.2)
    else some (false, .tinyPB r.2.1 :: ms, r.2.2)

/-! ## One message -/

/-- A message that is too large, or does not fit behind `used` bytes into a buffer that can be
    made `limit` bytes large. -/
def Refused (limit used : Nat) (m : TinyPBProtocol) : Prop :=
  kMaxPacketSize < (withMsgId m).packetSize ∨
    ¬ (used + (withMsgId m).packetSize ≤ kMaxBufferSize ∧
      kPrependSize + used + (withMsgId m).packetSize ≤ limit)

section Message

variable {crc : Bytes → UInt32} {m : TinyPBProtocol} {out : TcpBuffer}

theorem encodeMessage_unprepended (hout : out.Unprepended) :
    (encodeMessage crc m out).2.2.Unprepended := by
  unfold encodeMessage
  dsimp only
  split
  · exact hout
  split
  · exact (hout.ensureWritable _).poke _
  · exact hout.ensureWritable _

theorem encodeMessage_limit (crc : Bytes → UInt32) (m : TinyPBProtocol) (out : TcpBuffer) :
    (encodeMessage crc m out).2.2.limit = out.limit := by
  unfold encodeMessage
  dsimp only
  split
  · rfl
  split
  · rename_i hroom
    rw [← TcpBuffer.limit_ensureWritable out (withMsgId m).packetSize]
    have hfits := TcpBuffer.ensureWritable_writeAble hroom
    have h2 := (out.ensureWritable (withMsgId m).packetSize).2.write_le_size
    unfold TcpBuffer.writeAble at hfits
    unfold TcpBuffer.limit TcpBuffer.capacity
    show max (store _ _ _).length _ = _
    rw [length_store]
    rw [length_writePacket]
    omega
  · exact TcpBuffer.limit_ensureWritable _ _

theorem encodeMessage_eq_false_iff (hout : out.Unprepended) :
    (encodeMessage crc m out).1 = false ↔ Refused out.limit out.readable.length m := by
  have hmax : kMaxPacketSize = 1048576 := rfl
  have hroom := @TcpBuffer.Unprepended.ensureWritable_iff out hout (withMsgId m).packetSize
  rw [← TcpBuffer.length_readable] at hroom
  unfold encodeMessage Refused
  dsimp only
  split
  · rename_i hlarge
    exact ⟨fun _ => Or.inl (by omega), fun _ => rfl⟩
  rename_i hsmall
  split
  · rename_i hfits
    refine ⟨fun h => absurd h (by simp), ?_⟩
    rintro (hlarge | hfull)
    · omega
    · exact absurd (hroom.mp hfits) hfull
  · rename_i hfull
    exact ⟨fun _ => Or.inr (mt hroom.mpr hfull), fun _ => rfl⟩

theorem checkedEncodeMessage_eq (hout : out.Unprepended) :
    checkedEncodeMessage crc m out.raw =
      some ((encodeMessage crc m out).1, (encodeMessage crc m out).2.1,
        (encodeMessage crc m out).2.2.raw) := by
  unfold checkedEncodeMessage encodeMessage
  dsimp only
  split
  · rfl
  rw [TcpBuffer.checkedEnsureWritable_eq hout, Option.bind_eq_bind, Option.bind_some]
  dsimp only
  split
  · rename_i hroom
    have hfits : (writePacket crc (withMsgId m) (Int32.ofNat (withMsgId m).packetSize)).length ≤
        (out.ensureWritable (withMsgId m).packetSize).2.writeAble := by
      rw [length_writePacket]
      exact TcpBuffer.ensureWritable_writeAble hroom
    obtain ⟨hsave, -, -⟩ := TcpBuffer.raw_poke _ _ hfits
    have hmove := TcpBuffer.checkedMoveWriteIndex_eq
      (TcpBuffer.poke_allocated (hout.ensureWritable _).allocated hfits)
      (writePacket crc (withMsgId m) (Int32.ofNat (withMsgId m).packetSize)).length
    rw [TcpBuffer.raw_buffer, TcpBuffer.raw_writeIndex, hsave, Option.bind_eq_bind,
      Option.bind_some]
    show ((TcpBuffer.poke _ _ hfits).raw.checkedMoveWriteIndex _).bind _ = _
    rw [hmove]
    rfl
  · rfl

end Message

/-! ## The whole list -/

theorem checkedEncode_eq {crc : Bytes → UInt32} {ms : List AbstractProtocol} {out : TcpBuffer}
    (hout : out.Unprepended) :
    checkedEncode crc ms out.raw =
      some ((encode crc ms out).1, (encode crc ms out).2.1, (encode crc ms out).2.2.raw) := by
  induction ms generalizing out with
  | nil => rfl
  | cons msg ms ih =>
    cases msg with
    | other =>
      rw [checkedEncode, encode, ih hout]
      rfl
    | tinyPB m =>
      rw [checkedEncode, encode, checkedEncodeMessage_eq hout, Option.bind_eq_bind,
        Option.bind_some]
      dsimp only
      split
      · rw [ih (encodeMessage_unprepended hout)]
        rfl
      · rfl

theorem encode_unprepended {crc : Bytes → UInt32} {ms : List AbstractProtocol} {out : TcpBuffer}
    (hout : out.Unprepended) : (encode crc ms out).2.2.Unprepended := by
  induction ms generalizing out with
  | nil => exact hout
  | cons msg ms ih =>
    cases msg with
    | other => exact ih hout
    | tinyPB m =>
      rw [encode]
      split
      · exact ih (encodeMessage_unprepended hout)
      · exact encodeMessage_unprepended hout

/-- The bytes that `encode` appends for these messages, if it appends them all. -/
def sealedFrames (crc : Bytes → UInt32) (ms : List AbstractProtocol) : Bytes :=
  frames (sealedAll crc ms)

/-- No message of the list is refused behind those in front of it. -/
def NoneRefused (crc : Bytes → UInt32) (limit used : Nat) (ms : List AbstractProtocol) : Prop :=
  ∀ before m after, ms = before ++ .tinyPB m :: after →
    ¬ Refused limit (used + (sealedFrames crc before).length) m

section List

variable {crc : Bytes → UInt32} {limit used : Nat} {ms : List AbstractProtocol}

theorem noneRefused_nil : NoneRefused crc limit used [] := by
  intro before m after h
  exact absurd h (by simp)

theorem noneRefused_other (h : NoneRefused crc limit used ms) :
    NoneRefused crc limit used (.other :: ms) := by
  intro before m after heq
  cases before with
  | nil => exact absurd heq (by simp)
  | cons first before =>
    obtain ⟨rfl, htail⟩ := List.cons.inj heq
    exact h before m after htail

theorem noneRefused_tinyPB {m : TinyPBProtocol} (hm : ¬ Refused limit used m)
    (h : NoneRefused crc limit (used + (sealed crc m).frame.length) ms) :
    NoneRefused crc limit used (.tinyPB m :: ms) := by
  intro before m' after heq
  cases before with
  | nil =>
    obtain ⟨hsame, -⟩ := List.cons.inj heq
    obtain rfl := AbstractProtocol.tinyPB.inj hsame
    exact hm
  | cons first before =>
    obtain ⟨rfl, htail⟩ := List.cons.inj heq
    rw [sealedFrames, sealedAll, frames, List.length_append, ← Nat.add_assoc]
    exact h before m' after htail

/-- What `encode` has appended: all frames, or those in front of the first message it refuses. -/
inductive Encoded (crc : Bytes → UInt32) (limit : Nat) (readable : Bytes)
    (ms : List AbstractProtocol) (ok : Bool) (readable' : Bytes) : Prop where
  | all (hok : ok = true) (happended : readable' = readable ++ sealedFrames crc ms)
      (hnone : NoneRefused crc limit readable.length ms)
  | upTo (hok : ok = false) (before : List AbstractProtocol) (m : TinyPBProtocol)
      (after : List AbstractProtocol) (hms : ms = before ++ .tinyPB m :: after)
      (happended : readable' = readable ++ sealedFrames crc before)
      (hnone : NoneRefused crc limit readable.length before)
      (hrefused : Refused limit readable'.length m)

theorem encoded_other {readable readable' : Bytes} {ok : Bool}
    (h : Encoded crc limit readable ms ok readable') :
    Encoded crc limit readable (.other :: ms) ok readable' := by
  cases h with
  | all hok happended hnone => exact .all hok happended (noneRefused_other hnone)
  | upTo hok before m after hms happended hnone hrefused =>
    exact .upTo hok (.other :: before) m after (by rw [hms]; rfl) happended
      (noneRefused_other hnone) hrefused

theorem encoded_tinyPB {readable readable' : Bytes} {ok : Bool} {m : TinyPBProtocol}
    (hm : ¬ Refused limit readable.length m)
    (h : Encoded crc limit (readable ++ (sealed crc m).frame) ms ok readable') :
    Encoded crc limit readable (.tinyPB m :: ms) ok readable' := by
  cases h with
  | all hok happended hnone =>
    rw [List.length_append] at hnone
    refine .all hok ?_ (noneRefused_tinyPB hm hnone)
    rw [happended, sealedFrames, sealedFrames, sealedAll, frames, List.append_assoc]
  | upTo hok before m' after hms happended hnone hrefused =>
    rw [List.length_append] at hnone
    refine .upTo hok (.tinyPB m :: before) m' after (by rw [hms]; rfl) ?_
      (noneRefused_tinyPB hm hnone) hrefused
    rw [happended, sealedFrames, sealedFrames, sealedAll, frames, List.append_assoc]

theorem encode_prefix {out : TcpBuffer} (hout : out.Unprepended) :
    Encoded crc out.limit out.readable ms (encode crc ms out).1
      (encode crc ms out).2.2.readable := by
  induction ms generalizing out with
  | nil => exact .all rfl (List.append_nil _).symm noneRefused_nil
  | cons msg ms ih =>
    cases msg with
    | other => exact encoded_other (ih hout)
    | tinyPB m =>
      have hiff := @encodeMessage_eq_false_iff crc m out hout
      rw [encode]
      split
      · rename_i hok
        have hm : ¬ Refused out.limit out.readable.length m := fun hno => by
          rw [hiff.mpr hno] at hok
          exact absurd hok (by simp)
        have hrest := ih (@encodeMessage_unprepended crc m out hout)
        rw [encodeMessage_limit, (encodeMessage_ok hok).2.2] at hrest
        exact encoded_tinyPB hm hrest
      · rename_i hno
        have hrefused := eq_false_of_ne_true hno
        refine .upTo rfl [] m ms rfl ?_ noneRefused_nil ?_
        · exact (congrArg _ (encodeMessage_refused hrefused)).trans (List.append_nil _).symm
        · dsimp only
          rw [encodeMessage_refused hrefused]
          exact hiff.mp hrefused

end List

/-! ## Main result -/

/-- The length words of a message, as the signed numbers that they are, say its lengths. -/
structure LengthWords (m : TinyPBProtocol) : Prop where
  pkLen : m.pkLen.toInt = m.frame.length
  msgIdLen : m.msgIdLen.toInt = m.msgId.length
  methodNameLen : m.methodNameLen.toInt = m.methodName.length
  errInfoLen : m.errInfoLen.toInt = m.errInfo.length

theorem lengthWords_sealed (crc : Bytes → UInt32) {m : TinyPBProtocol}
    (hsize : (withMsgId m).packetSize ≤ kMaxPacketSize) : LengthWords (sealed crc m) := by
  have hmax : kMaxPacketSize = 1048576 := rfl
  have hparts : (withMsgId m).packetSize = HEADER_SIZE + (withMsgId m).msgId.length +
      (withMsgId m).methodName.length + (withMsgId m).errInfo.length +
      (withMsgId m).pbData.length := rfl
  refine ⟨?_, Int32.toInt_ofNat_of_lt (by omega), Int32.toInt_ofNat_of_lt (by omega),
    Int32.toInt_ofNat_of_lt (by omega)⟩
  rw [TinyPBProtocol.length_frame]
  exact Int32.toInt_ofNat_of_lt (by omega)

theorem lengthWords_of_noneRefused {crc : Bytes → UInt32} {limit used : Nat}
    {ms : List AbstractProtocol} (h : NoneRefused crc limit used ms) {m : TinyPBProtocol}
    (hm : .tinyPB m ∈ ms) : LengthWords (sealed crc m) := by
  obtain ⟨before, after, heq⟩ := List.append_of_mem hm
  refine lengthWords_sealed crc (Nat.le_of_not_lt fun hlarge => ?_)
  exact h before m after heq (Or.inl hlarge)

/-- On a buffer that nobody has prepended to, `encode` stays in the storage, keeps what was
    readable, and appends whole frames: those of all TinyPB messages of the list, or those of the
    ones in front of the first that is too large or does not fit. The length words of these
    frames are the lengths. -/
theorem encode_whole_frames (crc : Bytes → UInt32) (ms : List AbstractProtocol) (out : TcpBuffer)
    (hout : out.Unprepended) :
    ∃ ok ms' out', checkedEncode crc ms out.raw = some (ok, ms', out') ∧
      ((ok = true ∧ out'.readable = out.readable ++ sealedFrames crc ms ∧
          NoneRefused crc out.limit out.readable.length ms ∧
          ∀ m, .tinyPB m ∈ ms → LengthWords (sealed crc m)) ∨
        (ok = false ∧ ∃ before m after, ms = before ++ .tinyPB m :: after ∧
          out'.readable = out.readable ++ sealedFrames crc before ∧
          NoneRefused crc out.limit out.readable.length before ∧
          Refused out.limit (out.readable.length + (sealedFrames crc before).length) m ∧
          ∀ m', .tinyPB m' ∈ before → LengthWords (sealed crc m'))) := by
  refine ⟨_, _, _, checkedEncode_eq hout, ?_⟩
  rw [TcpBuffer.raw_readable (encode_unprepended hout).allocated]
  have hencoded : Encoded crc out.limit out.readable ms (encode crc ms out).1
      (encode crc ms out).2.2.readable := encode_prefix hout
  cases hencoded with
  | all hok happended hnone =>
    exact Or.inl ⟨hok, happended, hnone, fun m hm => lengthWords_of_noneRefused hnone hm⟩
  | upTo hok before m after hms happended hnone hrefused =>
    rw [happended, List.length_append] at hrefused
    exact Or.inr ⟨hok, before, m, after, hms, happended, hnone, hrefused,
      fun m' hm' => lengthWords_of_noneRefused hnone hm'⟩

/-- A message without an id goes into a new buffer, which is made larger for it. -/
theorem encode_whole_frames_grows :
    ∃ ms' out', checkedEncode (fun _ => 0) [.other, .tinyPB {}] (TcpBuffer.new 0).raw =
        some (true, ms', out') ∧
      out'.readable = sealedFrames (fun _ => 0) [.other, .tinyPB {}] := by
  have hnew : (TcpBuffer.new 0).Unprepended := (TcpBuffer.Bounded.new (by decide)).unprepended
  have hdone : (encode (fun _ => 0) [.other, .tinyPB {}] (TcpBuffer.new 0)).1 = true := by
    decide +kernel
  obtain ⟨ok, ms', out', hencode, hcases⟩ :=
    encode_whole_frames (fun _ => 0) [.other, .tinyPB {}] (TcpBuffer.new 0) hnew
  have hok : ok = true := by
    rw [checkedEncode_eq hnew, hdone] at hencode
    exact (congrArg Prod.fst (Option.some.inj hencode)).symm
  rcases hcases with ⟨-, happended, -, -⟩ | ⟨hno, -⟩
  · exact ⟨ms', out', hok ▸ hencode, happended⟩
  · exact absurd (hok.symm.trans hno) (by simp)

end RocketRpc.Coder
