import RocketRpc.Coder.Decoding

/-
  What `encode` appends to the output buffer: the frames of the messages it filled in.

  A message is filled in by `written`, which makes it well formed
  (`written_wellFormed`). A frame in front of any rest is read back by the scan
  (`scan_frame`), and so is a list of frames (`scan_frames`).
-/

namespace RocketRpc.Coder

open RocketRpc.Tcp Storage StreamScan TinyPBProtocol

/-! ## The text `encode` writes -/

/-- The body is the covered part of the filled-in message. -/
theorem writeBody_eq_covered (crc : Bytes → UInt32) (m : TinyPBProtocol) (pkLen : Int32) :
    writeBody m pkLen = (written crc m pkLen).covered := by
  simp [writeBody, writeInt32To, appendTo, covered, written, Codec.int32]

theorem writePacket_eq_frame (crc : Bytes → UInt32) (m : TinyPBProtocol) (pkLen : Int32) :
    writePacket crc m pkLen = (written crc m pkLen).frame := by
  rw [frame, ← writeBody_eq_covered]
  simp [writePacket, writeInt32To, written, Codec.int32]

@[simp] theorem packetSize_written (crc : Bytes → UInt32) (m : TinyPBProtocol) (pkLen : Int32) :
    (written crc m pkLen).packetSize = m.packetSize := rfl

theorem written_wellFormed (crc : Bytes → UInt32) (m : TinyPBProtocol)
    (hsize : m.packetSize ≤ kMaxPacketSize) :
    (written crc m (Int32.ofNat m.packetSize)).WellFormed crc where
  size_le := hsize
  pkLen_eq := rfl
  msgIdLen_eq := rfl
  methodNameLen_eq := rfl
  errInfoLen_eq := rfl
  checkSum_eq := by rw [← writeBody_eq_covered]; rfl
  parsed := rfl

/-- Filling in a well-formed message changes nothing. -/
theorem written_of_wellFormed {crc : Bytes → UInt32} {m : TinyPBProtocol}
    (h : m.WellFormed crc) : written crc m (Int32.ofNat m.packetSize) = m := by
  have hcheck := h.checkSum_eq
  have hbody := writeBody_eq_covered crc m (Int32.ofNat m.packetSize)
  have hcov : (written crc m (Int32.ofNat m.packetSize)).covered = m.covered := by
    simp only [covered, written, h.pkLen_eq, h.msgIdLen_eq, h.methodNameLen_eq, h.errInfoLen_eq]
  rw [hcov] at hbody
  rw [written, hbody, ← hcheck, ← h.pkLen_eq, ← h.msgIdLen_eq, ← h.methodNameLen_eq,
    ← h.errInfoLen_eq, ← h.parsed]

/-- The message as `encode` fills it in. -/
def sealed (crc : Bytes → UInt32) (m : TinyPBProtocol) : TinyPBProtocol :=
  written crc (withMsgId m) (Int32.ofNat (withMsgId m).packetSize)

/-- The loop body succeeds exactly if the packet is small enough and fits into the buffer;
    then the frame of the filled-in message has been appended. -/
theorem encodeMessage_ok {crc : Bytes → UInt32} {m : TinyPBProtocol} {out : TcpBuffer}
    (h : (encodeMessage crc m out).1 = true) :
    (sealed crc m).WellFormed crc ∧ (encodeMessage crc m out).2.1 = sealed crc m ∧
      (encodeMessage crc m out).2.2.readable = out.readable ++ (sealed crc m).frame := by
  unfold encodeMessage at h ⊢
  dsimp only at h ⊢
  by_cases hsize : (withMsgId m).packetSize > kMaxPacketSize ∨
      (withMsgId m).packetSize > 0x7FFFFFFF
  · rw [if_pos hsize] at h
    simp at h
  rw [if_neg hsize] at h ⊢
  by_cases hfits : (out.ensureWritable (withMsgId m).packetSize).1 = true
  · rw [dif_pos hfits]
    refine ⟨written_wellFormed crc _ (by omega), rfl, ?_⟩
    simp only [writePacket_eq_frame, TcpBuffer.poke_readable, TcpBuffer.ensureWritable_readable]
    rfl
  · rw [dif_neg hfits] at h
    simp at h

theorem encodeMessage_eq_true {crc : Bytes → UInt32} {m : TinyPBProtocol} {out : TcpBuffer}
    (hsize : (withMsgId m).packetSize ≤ kMaxPacketSize)
    (hfits : (out.ensureWritable (withMsgId m).packetSize).1 = true) :
    (encodeMessage crc m out).1 = true := by
  have hmax : kMaxPacketSize ≤ 0x7FFFFFFF := by decide
  unfold encodeMessage
  dsimp only
  rw [if_neg (by omega), dif_pos hfits]

/-- A message that is not written leaves the buffer as it was. -/
theorem encodeMessage_refused {crc : Bytes → UInt32} {m : TinyPBProtocol} {out : TcpBuffer}
    (h : (encodeMessage crc m out).1 = false) : (encodeMessage crc m out).2.2 = out := by
  unfold encodeMessage at h ⊢
  dsimp only at h ⊢
  by_cases hsize : (withMsgId m).packetSize > kMaxPacketSize ∨
      (withMsgId m).packetSize > 0x7FFFFFFF
  · rw [if_pos hsize]
  rw [if_neg hsize] at h ⊢
  by_cases hfits : (out.ensureWritable (withMsgId m).packetSize).1 = true
  · rw [dif_pos hfits] at h
    simp at h
  · rw [dif_neg hfits]
    exact TcpBuffer.ensureWritable_eq_self (by simpa using hfits)

/-! ## Message lists -/

/-- The frames of the TinyPB messages of a list, one after another. -/
def frames : List AbstractProtocol → Bytes
  | [] => []
  | .other :: ms => frames ms
  | .tinyPB m :: ms => m.frame ++ frames ms

def AbstractProtocol.tinyPB? : AbstractProtocol → Option TinyPBProtocol
  | .tinyPB m => some m
  | .other => none

/-- The TinyPB messages of a list. -/
def tinyPBs (ms : List AbstractProtocol) : List TinyPBProtocol :=
  ms.filterMap AbstractProtocol.tinyPB?

/-- The messages as `encode` fills them in. -/
def sealedAll (crc : Bytes → UInt32) : List AbstractProtocol → List AbstractProtocol
  | [] => []
  | .other :: ms => .other :: sealedAll crc ms
  | .tinyPB m :: ms => .tinyPB (sealed crc m) :: sealedAll crc ms

/-- An `encode` that returns true has appended the frames of the filled-in messages. -/
theorem encode_ok {crc : Bytes → UInt32} {ms : List AbstractProtocol} {out : TcpBuffer}
    (h : (encode crc ms out).1 = true) :
    (encode crc ms out).2.1 = sealedAll crc ms ∧
      (encode crc ms out).2.2.readable = out.readable ++ frames (sealedAll crc ms) := by
  induction ms generalizing out with
  | nil => simp [encode, sealedAll, frames]
  | cons msg ms ih =>
    cases msg with
    | other =>
      rw [encode] at h ⊢
      obtain ⟨h1, h2⟩ := ih h
      exact ⟨congrArg _ h1, h2⟩
    | tinyPB m =>
      rw [encode] at h ⊢
      split at h
      · rename_i hm
        obtain ⟨-, hmsg, hbuf⟩ := encodeMessage_ok hm
        obtain ⟨h1, h2⟩ := ih h
        rw [if_pos hm]
        refine ⟨?_, ?_⟩
        · rw [h1, hmsg, sealedAll]
        · rw [h2, hbuf, sealedAll, frames, List.append_assoc]
      · simp at h

/-- An `encode` that returns true has written well-formed messages only. -/
theorem encode_wellFormed {crc : Bytes → UInt32} {ms : List TinyPBProtocol} {out : TcpBuffer}
    (h : (encode crc (ms.map .tinyPB) out).1 = true) :
    ∀ m ∈ ms, (sealed crc m).WellFormed crc := by
  induction ms generalizing out with
  | nil => simp
  | cons m ms ih =>
    rw [List.map_cons, encode] at h
    split at h
    · rename_i hm
      intro m' hmem
      rcases List.mem_cons.mp hmem with rfl | hmem
      · exact (encodeMessage_ok hm).1
      · exact ih h m' hmem
    · simp at h

/-- Whatever `encode` returns, it has appended whole frames: those of the messages it filled in,
    or of some of them if it returns false. -/
theorem encode_appends (crc : Bytes → UInt32) (ms : List AbstractProtocol) (out : TcpBuffer) :
    ∃ ns, (∀ n ∈ ns, n.WellFormed crc) ∧
      (encode crc ms out).2.2.readable = out.readable ++ ns.flatMap frame ∧
      ((encode crc ms out).1 = true → tinyPBs (encode crc ms out).2.1 = ns) := by
  induction ms generalizing out with
  | nil => exact ⟨[], by simp, by simp [encode], fun _ => rfl⟩
  | cons msg ms ih =>
    cases msg with
    | other => exact ih out
    | tinyPB m =>
      rw [encode]
      cases hm : (encodeMessage crc m out).1 with
      | true =>
        obtain ⟨hwf, hmsg, hbuf⟩ := encodeMessage_ok hm
        obtain ⟨ns, hns, hbytes, htiny⟩ := ih (encodeMessage crc m out).2.2
        rw [if_pos rfl]
        refine ⟨sealed crc m :: ns, ?_, ?_, fun hok => ?_⟩
        · exact List.forall_mem_cons.mpr ⟨hwf, hns⟩
        · rw [hbytes, hbuf, List.flatMap_cons, List.append_assoc]
        · rw [← htiny hok, hmsg]
          rfl
      | false =>
        rw [if_neg (by simp)]
        exact ⟨[], by simp, by simp [encodeMessage_refused hm], by simp⟩

theorem sealedAll_map (crc : Bytes → UInt32) (ms : List TinyPBProtocol) :
    sealedAll crc (ms.map .tinyPB) = (ms.map (sealed crc)).map .tinyPB := by
  induction ms with
  | nil => rfl
  | cons m ms ih => rw [List.map_cons, sealedAll, ih]; rfl

/-! ## Reading the text back -/

/-- A well-formed frame in front of anything is a candidate. -/
theorem WellFormed.candidate {crc : Bytes → UInt32} {m : TinyPBProtocol} (h : m.WellFormed crc)
    (rest : Bytes) : Candidate (m.frame ++ rest) m.packetSize := by
  have hpos : HEADER_SIZE ≤ m.packetSize := by
    unfold packetSize
    omega
  have hlen : 5 ≤ (m.frame ++ rest).length := by
    rw [List.length_append, length_frame]
    simp only [HEADER_SIZE] at hpos
    omega
  have hword : readInt32 (m.frame ++ rest) 1 = Int32.ofNat m.packetSize := by
    rw [← h.pkLen_eq]
    exact readInt32_of_drop (i := 1) rfl
  refine ⟨rfl, ⟨hlen, hword, hpos, h.size_le⟩, ?_, ?_⟩
  · rw [List.length_append, length_frame]
    omega
  · have hcov := m.length_covered
    rw [frame, List.append_assoc, List.getElem?_append_right (by omega), List.append_assoc,
      List.getElem?_append_right (by rw [Codec.length_encode_int32]; omega),
      Codec.length_encode_int32, show m.packetSize - 1 - m.covered.length - 4 = 0 by omega]
    rfl

theorem verdict_frame {crc : Bytes → UInt32} {m : TinyPBProtocol} (h : m.WellFormed crc)
    (rest : Bytes) :
    (frameDecoder crc).verdict (m.frame ++ rest) = .emit m m.packetSize := by
  refine verdict_eq_iff.mpr ⟨WellFormed.candidate h rest, h, ?_⟩
  rw [← length_frame, List.take_left]

theorem scan_frame {crc : Bytes → UInt32} {m : TinyPBProtocol} (h : m.WellFormed crc)
    (rest : Bytes) :
    scan (frameDecoder crc) (m.frame ++ rest) =
      ((scan (frameDecoder crc) rest).shift m.packetSize).push ⟨0, m.packetSize, m⟩ := by
  rw [scan_emit (verdict_frame h rest), ← length_frame, List.drop_left]

/-- Frames one after another are read one after another. -/
theorem scan_frames {crc : Bytes → UInt32} {ms : List TinyPBProtocol}
    (h : ∀ m ∈ ms, m.WellFormed crc) :
    (scan (frameDecoder crc) (frames (ms.map .tinyPB))).messages = ms ∧
      (scan (frameDecoder crc) (frames (ms.map .tinyPB))).rejected = none ∧
      (scan (frameDecoder crc) (frames (ms.map .tinyPB))).residue = [] := by
  induction ms with
  | nil => simp [frames, Result.messages]
  | cons m ms ih =>
    obtain ⟨h1, h2, h3⟩ := ih fun m' hm' => h m' (List.mem_cons_of_mem m hm')
    rw [List.map_cons, frames, scan_frame (h m List.mem_cons_self)]
    refine ⟨?_, ?_, ?_⟩
    · rw [Result.messages_push, Result.messages_shift, h1]
    · rw [Result.rejected_push, Result.rejected_shift_eq_none, h2]
    · rw [Result.residue_push, Result.residue_shift, h3]

end RocketRpc.Coder
