import Mathlib.Data.List.Forall2
import RocketRpc.Coder.Encoding

/-
  The contract of the TinyPB coder.

  What `encode` wrote is read back (`encode_then_decode`), however the stream is cut
  (`decode_segmentation`); `decode` takes exactly the frames of the grammar, leftmost first
  (`decode_leftmost`); and a message with an id is written back as the bytes it was read
  from (`decode_canonical`). The checksum is any function of the bytes it covers.
-/

namespace RocketRpc.Coder

open RocketRpc.Tcp Storage StreamScan TinyPBProtocol

variable (crc : Bytes → UInt32)

/-! ## Round trip -/

/-- `m'` is the message `m` as it travels: the same contents, an id if it had none, and the
    fields that describe its text. -/
structure Travels (m m' : TinyPBProtocol) : Prop where
  msgId : m'.msgId = if m.msgId = [] then defaultMsgId else m.msgId
  methodName : m'.methodName = m.methodName
  errCode : m'.errCode = m.errCode
  errInfo : m'.errInfo = m.errInfo
  pbData : m'.pbData = m.pbData
  wellFormed : m'.WellFormed crc

theorem travels_sealed {m : TinyPBProtocol} (h : (sealed crc m).WellFormed crc) :
    Travels crc m (sealed crc m) := by
  refine ⟨?_, ?_, ?_, ?_, ?_, h⟩ <;> simp only [sealed, written, withMsgId] <;> split <;> rfl

/-- The messages that `encode` filled in and wrote come back from one `decode` of the bytes
    it produced, garbage without a start byte in front of them. -/
theorem encode_then_decode (ms : List TinyPBProtocol) (g : Bytes) (out inp : TcpBuffer)
    (hg : PB_START ∉ g) (hout : out.readable = []) (hinp : inp.readable = [])
    (henc : (encode crc (ms.map .tinyPB) out).1 = true)
    (happ : (inp.append (g ++ (encode crc (ms.map .tinyPB) out).2.2.readable)).1 = true) :
    let r := decode crc (inp.append (g ++ (encode crc (ms.map .tinyPB) out).2.2.readable)).2
    r.1.fatal = false ∧ r.2.readable = [] ∧
      (encode crc (ms.map .tinyPB) out).2.1 = r.1.messages.map .tinyPB ∧
      List.Forall₂ (Travels crc) ms r.1.messages := by
  intro r
  have hwf := encode_wellFormed henc
  obtain ⟨hmsgs, hbytes⟩ := encode_ok henc
  rw [hout, List.nil_append, sealedAll_map] at hbytes
  rw [sealedAll_map] at hmsgs
  have hread : (inp.append (g ++ (encode crc (ms.map .tinyPB) out).2.2.readable)).2.readable =
      g ++ frames ((ms.map (sealed crc)).map .tinyPB) := by
    rw [TcpBuffer.append_readable happ, hinp, hbytes, List.nil_append]
  obtain ⟨h1, h2, h3⟩ := @scan_frames crc (ms.map (sealed crc)) (by
    intro m hm
    obtain ⟨m', hm', rfl⟩ := List.mem_map.mp hm
    exact hwf m' hm')
  obtain ⟨hm, hf, hr⟩ := decode_spec crc
    (inp.append (g ++ (encode crc (ms.map .tinyPB) out).2.2.readable)).2
  rw [hread, scan_garbage crc g _ hg] at hm hf hr
  have hmessages : r.1.messages = ms.map (sealed crc) := by
    rw [hm, Result.messages_shift, h1]
  refine ⟨?_, ?_, ?_, ?_⟩
  · rw [hf, Result.isSome_rejected_shift, h2]
    rfl
  · rw [hr, Result.residue_shift, h3]
  · rw [hmsgs, hmessages]
  · rw [hmessages, List.forall₂_map_right_iff, List.forall₂_same]
    intro m hm'
    exact travels_sealed crc (hwf m hm')

/-- A message whose strings contain the start and the end byte. -/
def markers : TinyPBProtocol :=
  { msgId := [0x02], methodName := [0x03, 0x02], errCode := -7, pbData := [0x03] }

theorem encode_then_decode_markers :
    let out := TcpBuffer.new 0
    let sent := encode calculateChecksum ([markers].map .tinyPB) out
    let r := decode calculateChecksum (out.append ([0x41] ++ sent.2.2.readable)).2
    r.1.fatal = false ∧ r.2.readable = [] ∧ sent.2.1 = r.1.messages.map .tinyPB ∧
      List.Forall₂ (Travels calculateChecksum) [markers] r.1.messages :=
  encode_then_decode calculateChecksum [markers] [0x41] (TcpBuffer.new 0) (TcpBuffer.new 0)
    (by decide) (by decide) (by decide) (by decide +kernel) (by decide +kernel)

/-! ## Segmentation -/

/-- Append the chunks one after another and decode after each of them, up to the first
    fatal result: the messages, whether a result was fatal, and the buffer. There is no
    outcome if an `append` fails. -/
def decodeChunks : List Bytes → TcpBuffer → Option (List TinyPBProtocol × Bool × TcpBuffer)
  | [], b => some ([], false, b)
  | c :: cs, b =>
    if (b.append c).1 then
      let r := decode crc (b.append c).2
      if r.1.fatal then some (r.1.messages, true, r.2)
      else (decodeChunks cs r.2).map fun t => (r.1.messages ++ t.1, t.2)
    else none

/-- Decoding chunk by chunk is feeding the chunks to the decoder of frames. -/
theorem decodeChunks_feed {cs : List Bytes} {b b' : TcpBuffer} {ms : List TinyPBProtocol}
    {fatal : Bool} (h : decodeChunks crc cs b = some (ms, fatal, b')) :
    feed (frameDecoder crc) b.readable cs = (ms, b'.readable, fatal) := by
  induction cs generalizing b ms with
  | nil =>
    obtain ⟨rfl, rfl, rfl⟩ : [] = ms ∧ false = fatal ∧ b = b' := by simpa [decodeChunks] using h
    rfl
  | cons c cs ih =>
    rw [decodeChunks] at h
    split at h
    · rename_i happ
      obtain ⟨hm, hf, hr⟩ := decode_spec crc (b.append c).2
      rw [TcpBuffer.append_readable happ] at hm hf hr
      dsimp only at h
      rw [feed]
      rw [← hf, ← hm, ← hr]
      split at h
      · rename_i hfatal
        obtain ⟨rfl, rfl, rfl⟩ : _ = ms ∧ true = fatal ∧ _ = b' := by simpa using h
        rw [if_pos hfatal]
      · rename_i hfatal
        obtain ⟨⟨ms', f', b''⟩, hrec, heq⟩ := Option.map_eq_some_iff.mp h
        obtain ⟨rfl, rfl, rfl⟩ : _ = ms ∧ f' = fatal ∧ b'' = b' := by simpa using heq
        rw [if_neg hfatal, ih hrec]
    · simp at h

/-- However a stream is cut, decoding after each chunk gives the messages and the outcome
    of one `decode` of the whole stream, and the same bytes are left if none was fatal. -/
theorem decode_segmentation (cs : List Bytes) (b b₀ b' : TcpBuffer) (ms : List TinyPBProtocol)
    (fatal : Bool) (hb : b.readable = []) (hb₀ : b₀.readable = [])
    (happ : (b₀.append cs.flatten).1 = true)
    (h : decodeChunks crc cs b = some (ms, fatal, b')) :
    let r := decode crc (b₀.append cs.flatten).2
    ms = r.1.messages ∧ fatal = r.1.fatal ∧ (fatal = false → b'.readable = r.2.readable) := by
  intro r
  have hfeed := decodeChunks_feed crc h
  rw [hb] at hfeed
  have hwait : (frameDecoder crc).verdict [] = .wait := verdict_nil _
  obtain ⟨h1, h2, h3⟩ := feed_spec [] hwait cs
  rw [hfeed, List.nil_append] at h1 h2 h3
  obtain ⟨hm, hf, hr⟩ := decode_spec crc (b₀.append cs.flatten).2
  rw [TcpBuffer.append_readable happ, hb₀, List.nil_append] at hm hf hr
  refine ⟨?_, ?_, ?_⟩
  · rw [hm]
    exact h1
  · rw [hf]
    exact h2
  · intro hno
    rw [hr]
    exact h3 hno

theorem decode_residue_le (b : TcpBuffer) : (decode crc b).2.readAble ≤ b.readAble := by
  obtain ⟨-, -, hr⟩ := decode_spec crc b
  rw [← TcpBuffer.length_readable, hr, ← TcpBuffer.length_readable]
  exact residue_length_le _

/-- No `append` fails while the whole stream fits into a buffer. -/
theorem decodeChunks_isSome {cs : List Bytes} {b : TcpBuffer}
    (h : kPrependSize + b.readAble + cs.flatten.length ≤ kMaxBufferSize) :
    (decodeChunks crc cs b).isSome = true := by
  induction cs generalizing b with
  | nil => rfl
  | cons c cs ih =>
    rw [List.flatten_cons, List.length_append] at h
    have happ : (b.append c).1 = true := TcpBuffer.append_of_le (by omega)
    have hlen : (b.append c).2.readAble = b.readAble + c.length := by
      rw [← TcpBuffer.length_readable, TcpBuffer.append_readable happ, List.length_append,
        TcpBuffer.length_readable]
    rw [decodeChunks, if_pos happ]
    dsimp only
    split
    · rfl
    · have hres := decode_residue_le crc (b.append c).2
      rw [Option.isSome_map]
      exact ih (by omega)

theorem decode_segmentation_markers :
    let s := (sealed calculateChecksum markers).frame
    ∃ ms fatal b',
      decodeChunks calculateChecksum [s.take 9, s.drop 9] (TcpBuffer.new 0) =
        some (ms, fatal, b') ∧
      let r := decode calculateChecksum ((TcpBuffer.new 0).append [s.take 9, s.drop 9].flatten).2
      ms = r.1.messages ∧ fatal = r.1.fatal ∧ (fatal = false → b'.readable = r.2.readable) := by
  intro s
  obtain ⟨⟨ms, fatal, b'⟩, h⟩ := Option.isSome_iff_exists.mp
    (@decodeChunks_isSome calculateChecksum [s.take 9, s.drop 9] (TcpBuffer.new 0) (by decide))
  exact ⟨ms, fatal, b', h, decode_segmentation calculateChecksum [s.take 9, s.drop 9]
    (TcpBuffer.new 0) (TcpBuffer.new 0) b' ms fatal (by decide) (by decide) (by decide +kernel) h⟩

/-! ## The frame grammar -/

/-- A frame that says `m` starts at position `p`. -/
def FrameAt (b : Bytes) (p : Nat) (m : TinyPBProtocol) : Prop :=
  m.WellFormed crc ∧ m.frame <+: b.drop p

/-- The leftmost greedy scan of `b` has come to position `p` and taken the frames `hs`: it
    takes a frame where one stands, and moves on by one byte where none can. -/
inductive LeftmostScan (b : Bytes) : Nat → List (Hit TinyPBProtocol) → Prop
  | start : LeftmostScan b 0 []
  | frame {p : Nat} {hs : List (Hit TinyPBProtocol)} {m : TinyPBProtocol} :
      LeftmostScan b p hs → FrameAt crc b p m →
        LeftmostScan b (p + m.packetSize) (hs ++ [⟨p, m.packetSize, m⟩])
  | skip {p : Nat} {hs : List (Hit TinyPBProtocol)} :
      LeftmostScan b p hs → Impossible (b.drop p) → LeftmostScan b (p + 1) hs

variable {crc}

theorem verdict_of_frameAt {b : Bytes} {p : Nat} {m : TinyPBProtocol} (h : FrameAt crc b p m) :
    (frameDecoder crc).verdict (b.drop p) = .emit m m.packetSize := by
  obtain ⟨hwf, rest, hrest⟩ := h
  rw [← hrest]
  exact verdict_frame hwf rest

theorem frameAt_of_verdict {b : Bytes} {p n : Nat} {m : TinyPBProtocol}
    (h : (frameDecoder crc).verdict (b.drop p) = .emit m n) :
    FrameAt crc b p m ∧ n = m.packetSize ∧ slice b p n = m.frame := by
  obtain ⟨hcand, hwf, htext⟩ := verdict_eq_iff.mp h
  have hlen := congrArg List.length htext
  rw [List.length_take_of_le hcand.complete, length_frame] at hlen
  refine ⟨⟨hwf, ?_⟩, hlen, htext⟩
  rw [← htext]
  exact List.take_prefix n _

/-- The relation only goes where the scan goes. -/
theorem scan_of_leftmostScan {b : Bytes} {p : Nat} {hs : List (Hit TinyPBProtocol)}
    (h : LeftmostScan crc b p hs) :
    scan (frameDecoder crc) b = ((scan (frameDecoder crc) (b.drop p)).shift p).prepend hs := by
  induction h with
  | start => simp [Result.prepend]
  | frame _ hf ih =>
    rw [ih, scan_emit (verdict_of_frameAt hf), Result.shift_push, Result.shift_shift,
      List.drop_drop]
    simp [Result.prepend, Result.push, Hit.shift]
  | skip _ hi ih =>
    rw [ih, scan_skip (verdict_eq_iff.mpr hi), Result.shift_shift, List.drop_drop]

/-- The scan of what is left from `p` on carries the relation to where the scan stops. -/
theorem leftmostScan_of_scan {b : Bytes} {p : Nat} {hs : List (Hit TinyPBProtocol)}
    (h : LeftmostScan crc b p hs) :
    ∃ q, LeftmostScan crc b q
        (hs ++ (scan (frameDecoder crc) (b.drop p)).hits.map (Hit.shift p)) ∧
      (((scan (frameDecoder crc) (b.drop p)).rejected = none ∧
          (scan (frameDecoder crc) (b.drop p)).residue = b.drop q ∧
          (b.drop q = [] ∨ Incomplete (b.drop q))) ∨
        ∃ n, (scan (frameDecoder crc) (b.drop p)).rejected.isSome = true ∧
          (scan (frameDecoder crc) (b.drop p)).residue = b.drop (q + n) ∧
          Malformed crc (b.drop q) n) := by
  have shift_hits : ∀ (k : Nat) (l : List (Hit TinyPBProtocol)),
      (l.map (Hit.shift k)).map (Hit.shift p) = l.map (Hit.shift (p + k)) := by
    intro k l
    simp [Hit.shift, Nat.add_assoc]
  generalize hxs : b.drop p = xs
  induction xs using scan_induction (frameDecoder crc) generalizing p hs with
  | wait xs hv =>
    refine ⟨p, ?_, Or.inl ?_⟩
    · rw [scan_wait hv]
      simpa using h
    · rw [scan_wait hv, hxs]
      exact ⟨rfl, rfl, verdict_eq_iff.mp hv⟩
  | skip xs hv ih =>
    subst hxs
    rw [scan_skip hv]
    obtain ⟨q, h1, h2⟩ := ih (h.skip (verdict_eq_iff.mp hv)) (by simp [Hit.shift, Nat.add_assoc])
      (by rw [List.drop_drop])
    refine ⟨q, ?_, ?_⟩
    · rw [Result.shift, shift_hits]
      exact h1
    · simpa using h2
  | emit xs m n hv ih =>
    subst hxs
    obtain ⟨hf, rfl, -⟩ := frameAt_of_verdict hv
    rw [scan_emit hv]
    obtain ⟨q, h1, h2⟩ := ih (h.frame hf) (by simp [Hit.shift, Nat.add_assoc])
      (by rw [List.drop_drop])
    refine ⟨q, ?_, ?_⟩
    · rw [Result.push, Result.shift, List.map_cons, shift_hits]
      simpa [Hit.shift] using h1
    · simpa using h2
  | reject xs n hv =>
    subst hxs
    refine ⟨p, ?_, Or.inr ⟨n, ?_, ?_, verdict_eq_iff.mp hv⟩⟩
    · rw [scan_reject hv]
      simpa using h
    · rw [scan_reject hv]
      rfl
    · rw [scan_reject hv, List.drop_drop]

/-- `decode` returns the messages of the leftmost greedy scan, which passes over no frame.
    It is fatal exactly when that scan comes to a malformed candidate, and the buffer then
    goes on right after the candidate; otherwise it keeps a start whose packet is not
    complete yet, or nothing. -/
theorem decode_leftmost (crc : Bytes → UInt32) (b : TcpBuffer) :
    ∃ p hs, LeftmostScan crc b.readable p hs ∧
      (decode crc b).1.messages = hs.map Hit.msg ∧
      ((decode crc b).1.fatal = false →
        (decode crc b).2.readable = b.readable.drop p ∧
        (b.readable.drop p = [] ∨ Incomplete (b.readable.drop p)) ∧
        (decode crc b).2.readable.length < kMaxPacketSize ∧
        ∀ q m, FrameAt crc b.readable q m →
          (∃ h ∈ hs, h.start = q) ∨ (∃ h ∈ hs, h.start < q ∧ q < h.stop) ∨ p ≤ q) ∧
      ((decode crc b).1.fatal = true ↔
        ∃ q hs' n, LeftmostScan crc b.readable q hs' ∧ Malformed crc (b.readable.drop q) n) ∧
      ((decode crc b).1.fatal = true →
        ∃ n, Malformed crc (b.readable.drop p) n ∧
          (decode crc b).2.readable = b.readable.drop (p + n)) := by
  obtain ⟨hm, hf, hr⟩ := decode_spec crc b
  obtain ⟨p, hscan, hstop⟩ := leftmostScan_of_scan (@LeftmostScan.start crc b.readable)
  have hzero : (Hit.shift 0 : Hit TinyPBProtocol → _) = id := funext fun h => by simp [Hit.shift]
  rw [List.drop_zero] at hscan hstop
  rw [hzero, List.map_id, List.nil_append] at hscan
  refine ⟨p, _, hscan, hm, ?_, ?_, ?_⟩
  · intro hno
    rw [hf] at hno
    rcases hstop with ⟨hrej, hres, hrest⟩ | ⟨n, hsome, -⟩
    · rw [hr, hres]
      refine ⟨rfl, hrest, ?_, ?_⟩
      · rcases hrest with h | ⟨-, h | ⟨n, hn, hlt⟩⟩
        · rw [h]
          decide
        · exact Nat.lt_trans h (by decide)
        · exact Nat.lt_of_lt_of_le hlt hn.upper
      · intro q m hq
        rcases Nat.lt_or_ge q p with hlt | hge
        · have hv := verdict_of_frameAt hq
          have hadv := advance_of hv (by simp)
          simp only [Verdict.size, List.length_drop] at hadv
          have hfront : q < (scan (frameDecoder crc) b.readable).frontier b.readable.length := by
            simp only [Result.frontier, hrej, hres, List.length_drop]
            omega
          rcases scan_complete hfront with ⟨h, hh, hle, hstop⟩ | hskip
          · rcases Nat.lt_or_eq_of_le hle with hlt' | heq
            · exact Or.inr (Or.inl ⟨h, hh, hlt', hstop⟩)
            · exact Or.inl ⟨h, hh, heq⟩
          · rw [hv] at hskip
            exact absurd hskip (by simp)
        · exact Or.inr (Or.inr hge)
    · rw [hsome] at hno
      exact absurd hno (by simp)
  · rw [hf]
    constructor
    · intro hyes
      rcases hstop with ⟨hrej, -⟩ | ⟨n, -, -, hmal⟩
      · rw [hrej] at hyes
        exact absurd hyes (by simp)
      · exact ⟨p, _, n, hscan, hmal⟩
    · rintro ⟨q, hs', n, hq, hmal⟩
      rw [scan_of_leftmostScan hq, scan_reject (verdict_eq_iff.mpr hmal)]
      rfl
  · intro hyes
    rw [hf] at hyes
    rcases hstop with ⟨hrej, -⟩ | ⟨n, -, hres, hmal⟩
    · rw [hrej] at hyes
      exact absurd hyes (by simp)
    · exact ⟨n, hmal, by rw [hr, hres]⟩

/-! ## Canonical frames -/

/-- A well-formed message with an id is written to an empty buffer as its frame. -/
theorem encode_wellFormed_one {m : TinyPBProtocol} {out : TcpBuffer} (h : m.WellFormed crc)
    (hid : m.msgId ≠ []) (hout : out.readable = []) :
    (encode crc [.tinyPB m] out).1 = true ∧
      (encode crc [.tinyPB m] out).2.2.readable = m.frame := by
  have hwith : withMsgId m = m := if_neg hid
  have hempty : out.readAble = 0 := (TcpBuffer.readable_eq_nil_iff out).mp hout
  have hroom : kPrependSize + kMaxPacketSize ≤ kMaxBufferSize := by decide
  have hsize := h.size_le
  have hfits : (out.ensureWritable (withMsgId m).packetSize).1 = true :=
    TcpBuffer.ensureWritable_of_le (by rw [hwith]; omega)
  have hone : (encode crc [.tinyPB m] out).1 = true := by
    rw [encode, if_pos (encodeMessage_eq_true (by rw [hwith]; exact h.size_le) hfits)]
    rfl
  refine ⟨hone, ?_⟩
  obtain ⟨-, hbytes⟩ := encode_ok hone
  rw [hbytes, hout, sealedAll, sealed, hwith, written_of_wellFormed h]
  simp [frames, sealedAll]

/-- The messages of one `decode` were read from disjoint slices of the buffer, in order, and
    a message with an id is written back as the slice it was read from; no other bytes are a
    frame that says the same. -/
theorem decode_canonical (crc : Bytes → UInt32) (b : TcpBuffer) :
    ∃ hs : List (Hit TinyPBProtocol),
      (decode crc b).1.messages = hs.map Hit.msg ∧
      hs.Pairwise (fun h k => h.stop ≤ k.start) ∧
      ∀ h ∈ hs, h.stop ≤ b.readable.length ∧
        IsFrame crc (slice b.readable h.start h.len) h.msg ∧
        (h.msg.msgId ≠ [] → ∀ out, out.readable = [] →
          (encode crc [.tinyPB h.msg] out).1 = true ∧
            (encode crc [.tinyPB h.msg] out).2.2.readable = slice b.readable h.start h.len) ∧
        ∀ f, IsFrame crc f h.msg → f = slice b.readable h.start h.len := by
  obtain ⟨hm, -, -⟩ := decode_spec crc b
  refine ⟨(scan (frameDecoder crc) b.readable).hits, hm, hits_sorted _, ?_⟩
  intro h hh
  obtain ⟨hv, hstop⟩ := hits_slice hh
  obtain ⟨⟨hwf, -⟩, -, htext⟩ := frameAt_of_verdict hv
  refine ⟨?_, ⟨hwf, htext⟩, ?_, ?_⟩
  · exact Nat.le_trans hstop (frontier_le _)
  · intro hid out hout
    rw [htext]
    exact encode_wellFormed_one hwf hid hout
  · intro f hf
    rw [htext, hf.2]

end RocketRpc.Coder
