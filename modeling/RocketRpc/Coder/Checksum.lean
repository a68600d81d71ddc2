import Mathlib.Data.Nat.Prime.Basic
import Mathlib.Tactic.NormNum.Prime
import RocketRpc.Coder.Contract
import RocketRpc.Lib.ShiftRegister

/-
  What the checksum of a TinyPB packet sees.

  `calculateChecksum` is the remainder of the message by the polynomial of CRC-32
  (`calculateChecksum_remainder`), so two messages of one length have the same checksum
  exactly if their difference is a multiple of it (`calculateChecksum_eq_iff`). Hence a burst
  of at most 32 bits changes the checksum (`calculateChecksum_burst`), and so do one or two
  bits anywhere in a packet, since the order of the polynomial is `2 ^ 32 - 1`
  (`calculateChecksum_two`). A packet damaged in this way between its length word and its
  checksum is rejected (`decode_damaged`).
-/

namespace RocketRpc.Coder

open Polynomial ShiftRegister RocketRpc.Tcp StreamScan TinyPBProtocol

/-- The feedback word of `CalculateRemainder`. -/
def feedback : BitVec 32 := (reflect polynomial 32).toBitVec

theorem feedback_eq : feedback = 0xEDB88320#32 := by decide +kernel

/-- The polynomial of CRC-32. -/
noncomputable def crc32 : (ZMod 2)[X] :=
  X ^ 32 + X ^ 26 + X ^ 23 + X ^ 22 + X ^ 16 + X ^ 12 + X ^ 11 + X ^ 10 + X ^ 8 + X ^ 7 + X ^ 5 +
    X ^ 4 + X ^ 2 + X + 1

theorem generator_feedback : generator feedback = crc32 := by
  rw [feedback_eq, generator, toPoly, crc32]
  simp [Finset.sum_range_succ]
  ring

theorem isCoprime_feedback : IsCoprime X (generator feedback) :=
  isCoprime_generator (by decide) (by rw [feedback_eq]; decide)

/-- The bits of a message in the order in which the register takes them in. -/
def bits (data : Bytes) : List Bool := (data.map UInt8.toBitVec).flatMap wordBits

@[simp] theorem length_bits (data : Bytes) : (bits data).length = 8 * data.length := by
  rw [bits, length_flatMap_wordBits, List.length_map]

theorem bits_injective {a b : Bytes} (h : bits a = bits b) : a = b := by
  have hlen : a.length = b.length := by
    have hbits := congrArg List.length h
    rw [length_bits, length_bits] at hbits
    omega
  induction a generalizing b with
  | nil => exact (List.length_eq_zero_iff.mp hlen.symm).symm
  | cons x a ih =>
    obtain ⟨y, b, rfl⟩ := List.exists_cons_of_length_eq_add_one hlen.symm
    simp only [bits, List.map_cons, List.flatMap_cons] at h
    obtain ⟨hx, hrest⟩ := List.append_inj h (by rw [length_wordBits, length_wordBits])
    have hxy : x.toBitVec = y.toBitVec :=
      toPoly_injective (by rw [← streamPoly_wordBits, hx, streamPoly_wordBits])
    rw [UInt8.toBitVec_inj.mp hxy, ih hrest (by simpa using hlen)]

/-! ## The register -/

theorem toBitVec_step (poly r : UInt32) :
    (if r &&& 1 ≠ 0 then (r >>> 1) ^^^ poly else r >>> 1).toBitVec =
      clock poly.toBitVec r.toBitVec := by
  have hlow : (r &&& 1).toNat = r.toNat % 2 := by
    rw [UInt32.toNat_and]
    exact Nat.and_one_is_mod _
  have hbit : r &&& 1 ≠ 0 ↔ r.toBitVec.getLsbD 0 = true := by
    rw [ne_eq, ← UInt32.toNat_inj, hlow, BitVec.getLsbD, Nat.testBit_zero, decide_eq_true_eq]
    exact Nat.mod_two_ne_zero
  have hshift : (r >>> 1).toBitVec = r.toBitVec >>> 1 := by simp
  unfold clock
  by_cases h : r &&& 1 ≠ 0
  · rw [if_pos h, if_pos (hbit.mp h), UInt32.toBitVec_xor, hshift]
  · rw [if_neg h, if_neg (mt hbit.mpr h), hshift]

theorem toBitVec_remainderByte (poly r : UInt32) (b : UInt8) :
    (remainderByte poly r b).toBitVec = absorbWord poly.toBitVec r.toBitVec b.toBitVec := by
  rw [remainderByte, List.foldl_const, List.length_range, absorbWord,
    (Function.Semiconj.iterate_right (toBitVec_step poly) 8).eq]
  simp

theorem toBitVec_calculateRemainder (data : Bytes) (r : UInt32) :
    (calculateRemainder data r).toBitVec =
      (data.map UInt8.toBitVec).foldl (absorbWord feedback) r.toBitVec := by
  rw [calculateRemainder]
  induction data generalizing r with
  | nil => rfl
  | cons b data ih =>
    rw [List.foldl_cons, List.map_cons, List.foldl_cons, ih, toBitVec_remainderByte]
    rfl

theorem toBitVec_calculateChecksum (data : Bytes) :
    (calculateChecksum data ^^^ finalXOR).toBitVec =
      (data.map UInt8.toBitVec).foldl (absorbWord feedback) initialValue.toBitVec := by
  have hcancel : calculateChecksum data ^^^ finalXOR = calculateRemainder data initialValue := by
    rw [calculateChecksum, UInt32.xor_assoc, UInt32.xor_self, UInt32.xor_zero]
  rw [hcancel, toBitVec_calculateRemainder]

/-- **The checksum is a remainder.** Up to the final exclusive or, it is the message, 32
    places up and with the initial value in front of it, modulo the polynomial of CRC-32. -/
theorem calculateChecksum_remainder (data : Bytes) :
    toPoly (calculateChecksum data ^^^ finalXOR).toBitVec =
      (X ^ (8 * data.length) * toPoly initialValue.toBitVec + X ^ 32 * streamPoly (bits data)) %ₘ
        crc32 := by
  have hdvd := dvd_absorb (v := 8) (by decide) feedback initialValue.toBitVec
    (data.map UInt8.toBitVec)
  rw [← toBitVec_calculateChecksum, List.length_map] at hdvd
  rw [← generator_feedback]
  exact eq_modByMonic hdvd

/-- Two messages of one length have the same checksum exactly if they differ by a multiple of
    the polynomial of CRC-32. -/
theorem calculateChecksum_eq_iff {a b : Bytes} (hlen : a.length = b.length) :
    calculateChecksum a = calculateChecksum b ↔
      crc32 ∣ streamPoly (bits a) - streamPoly (bits b) := by
  have hwords : (a.map UInt8.toBitVec).length = (b.map UInt8.toBitVec).length := by
    simpa using hlen
  have hiff := absorb_eq_iff (by decide) isCoprime_feedback initialValue.toBitVec hwords
  rw [← toBitVec_calculateChecksum, ← toBitVec_calculateChecksum, generator_feedback,
    UInt32.toBitVec_inj, UInt32.xor_left_inj] at hiff
  exact hiff

/-! ## The order of the polynomial -/

/-- Powers of `X` in the register, from which the order is read off: `(e, c, d)` says that
    `X ^ e` is `c` and `X ^ (e * 2 ^ 8)` is `d`. -/
def powers : List (Nat × BitVec 32 × BitVec 32) :=
  [(65535, 3699072095#32, 2700377571#32), (21845, 3953141322#32, 1013899303#32),
    (13107, 3249118455#32, 1410268292#32), (3855, 3760168399#32, 3473259310#32),
    (255, 28704029#32, 1056257235#32)]

theorem powers_checked : ∀ t ∈ powers, t.1 < 2 ^ 16 ∧
    pow 0xEDB88320#32 (BitVec.twoPow 32 30) 16 t.1 = t.2.1 ∧
      pow 0xEDB88320#32 t.2.1 9 256 = t.2.2 ∧
      (mul 0xEDB88320#32 (pow 0xEDB88320#32 t.2.2 9 256) t.2.1 = BitVec.twoPow 32 31 ↔
        t.1 = 65535) := by
  decide +kernel

theorem root_pow_65537 {e : Nat} (h : e ∈ powers.map Prod.fst) :
    AdjoinRoot.root (generator feedback) ^ (e * 65537) = 1 ↔ e = 65535 := by
  obtain ⟨⟨e, c, d⟩, hmem, rfl⟩ := List.mem_map.mp h
  obtain ⟨he, hc, hd, hone⟩ := powers_checked _ hmem
  dsimp only at he hc hd hone ⊢
  rw [← feedback_eq] at hc hd hone
  have hroot := residue_X feedback (by decide)
  have hcr : residue feedback c = AdjoinRoot.root (generator feedback) ^ e := by
    rw [← hroot, ← hc, residue_pow feedback (by decide) _ 16 e he]
  have hdr : residue feedback d = residue feedback c ^ 256 := by
    rw [← hd, residue_pow feedback (by decide) _ 9 256 (by decide)]
  have hpow : residue feedback (mul feedback (pow feedback d 9 256) c) =
      AdjoinRoot.root (generator feedback) ^ (e * 65537) := by
    rw [residue_mul, residue_pow feedback (by decide) _ 9 256 (by decide), hdr, hcr, ← pow_mul,
      ← pow_mul, ← pow_add, show e * (256 * 256) + e = e * 65537 by omega]
  rw [← hone, ← hpow, ← residue_one feedback (by decide)]
  exact ⟨fun h => residue_injective feedback h, congrArg (residue feedback)⟩

/-- `X` has the greatest order a polynomial of degree 32 allows. -/
theorem orderOf_root : orderOf (AdjoinRoot.root (generator feedback)) = 2 ^ 32 - 1 := by
  apply orderOf_eq_of_pow_and_pow_div_prime (by decide)
  · exact (root_pow_65537 (e := 65535) (by decide)).mpr rfl
  intro p hp hdvd
  have hfactors : (2 : Nat) ^ 32 - 1 = 3 * 5 * 17 * 257 * 65537 := by decide
  rw [hfactors] at hdvd
  have hcases : p = 3 ∨ p = 5 ∨ p = 17 ∨ p = 257 ∨ p = 65537 := by
    simpa only [hp.dvd_mul, Nat.prime_dvd_prime_iff_eq hp Nat.prime_three,
      Nat.prime_dvd_prime_iff_eq hp Nat.prime_five,
      Nat.prime_dvd_prime_iff_eq hp (show Nat.Prime 17 by norm_num),
      Nat.prime_dvd_prime_iff_eq hp (show Nat.Prime 257 by norm_num),
      Nat.prime_dvd_prime_iff_eq hp (show Nat.Prime 65537 by norm_num), or_assoc] using hdvd
  rcases hcases with rfl | rfl | rfl | rfl | rfl
  · exact mt (root_pow_65537 (e := 21845) (by decide)).mp (by decide)
  · exact mt (root_pow_65537 (e := 13107) (by decide)).mp (by decide)
  · exact mt (root_pow_65537 (e := 3855) (by decide)).mp (by decide)
  · exact mt (root_pow_65537 (e := 255) (by decide)).mp (by decide)
  · obtain ⟨-, hc, -⟩ := powers_checked (65535, 3699072095#32, 2700377571#32) List.mem_cons_self
    rw [← feedback_eq] at hc
    have hne : pow feedback (BitVec.twoPow 32 30) 16 65535 ≠ BitVec.twoPow 32 31 := by
      rw [hc]
      decide
    rw [show (2 ^ 32 - 1) / 65537 = 65535 by decide, ← residue_X feedback (by decide),
      ← residue_pow feedback (by decide) _ 16 65535 (by decide),
      ← residue_one feedback (by decide)]
    exact fun h => hne (residue_injective feedback h)

/-- The polynomial divides `X ^ d - 1` for no `d` below its order. -/
theorem not_dvd_of_lt_order {d : Nat} (hpos : 0 < d) (hlt : d < 2 ^ 32 - 1) :
    ¬ generator feedback ∣ X ^ d - 1 := by
  intro hdvd
  have hone : AdjoinRoot.root (generator feedback) ^ d = 1 := by
    have hmk := AdjoinRoot.mk_eq_mk.mpr hdvd
    rwa [map_pow, map_one, AdjoinRoot.mk_X] at hmk
  have hle := orderOf_le_of_pow_eq_one hpos hone
  rw [orderOf_root] at hle
  omega

/-! ## Errors the checksum sees -/

/-- A burst of at most 32 bits. -/
def Burst (as bs : List Bool) : Prop := ∃ s : Nat, ∀ i, i < s ∨ s + 32 ≤ i → as[i]? = bs[i]?

/-- At most two bits, wherever they are. -/
def TwoBits (as bs : List Bool) : Prop := ∃ p q : Nat, ∀ i, i ≠ p → i ≠ q → as[i]? = bs[i]?

theorem calculateChecksum_burst {a b : Bytes} (hlen : a.length = b.length) (hne : a ≠ b)
    (h : Burst (bits a) (bits b)) : calculateChecksum a ≠ calculateChecksum b := by
  obtain ⟨s, hs⟩ := h
  rw [ne_eq, calculateChecksum_eq_iff hlen, ← generator_feedback]
  exact not_dvd_of_burst isCoprime_feedback (by rw [length_bits, length_bits, hlen])
    (fun h => hne (bits_injective h)) s hs

theorem calculateChecksum_two {a b : Bytes} (hlen : a.length = b.length) (hne : a ≠ b)
    (hsize : 8 * a.length < 2 ^ 32) (h : TwoBits (bits a) (bits b)) :
    calculateChecksum a ≠ calculateChecksum b := by
  obtain ⟨p, q, hpq⟩ := h
  rw [ne_eq, calculateChecksum_eq_iff hlen, ← generator_feedback]
  refine not_dvd_of_two (by decide) isCoprime_feedback (by rw [length_bits, length_bits, hlen])
    (fun h => hne (bits_injective h)) p q hpq fun d hpos hlt => ?_
  rw [length_bits] at hlt
  exact not_dvd_of_lt_order hpos (by omega)

/-! ## Damaged packets -/

/-- The frames of well-formed messages are read one after another, whatever follows. -/
theorem scan_frames_append {crc : Bytes → UInt32} {ms : List TinyPBProtocol}
    (h : ∀ m ∈ ms, m.WellFormed crc) (rest : Bytes) :
    (scan (frameDecoder crc) (frames (ms.map .tinyPB) ++ rest)).messages =
        ms ++ (scan (frameDecoder crc) rest).messages ∧
      (scan (frameDecoder crc) (frames (ms.map .tinyPB) ++ rest)).rejected.isSome =
        (scan (frameDecoder crc) rest).rejected.isSome := by
  induction ms with
  | nil => simp [frames]
  | cons m ms ih =>
    obtain ⟨hmsgs, hrej⟩ := ih fun m' hm' => h m' (List.mem_cons_of_mem m hm')
    rw [List.map_cons, frames, List.append_assoc, scan_frame (h m List.mem_cons_self)]
    refine ⟨?_, ?_⟩
    · rw [Result.messages_push, Result.messages_shift, hmsgs, List.cons_append]
    · rw [Result.rejected_push, Result.isSome_rejected_shift, hrej]

/-- The packet of `m` with other bytes where the checksum covers it. -/
def damaged (m : TinyPBProtocol) (body : Bytes) : Bytes :=
  body ++ (Codec.int32.encode m.checkSum ++ [PB_END])

theorem length_damaged (m : TinyPBProtocol) (body : Bytes) :
    (damaged m body).length = body.length + 5 := by
  rw [damaged, List.length_append, List.length_append, Codec.length_encode_int32,
    List.length_singleton]

/-- The packet with another text behind its length word is a candidate still. -/
theorem candidate_damaged {crc : Bytes → UInt32} {m : TinyPBProtocol} (h : m.WellFormed crc)
    {body : Bytes} (hlen : body.length = m.covered.length) (hhead : body.take 5 = m.covered.take 5)
    (rest : Bytes) : Candidate (damaged m body ++ rest) m.packetSize := by
  obtain ⟨text, hbody⟩ : ∃ text, body = PB_START :: (Codec.int32.encode m.pkLen ++ text) := by
    refine ⟨body.drop 5, ?_⟩
    conv => lhs; rw [← List.take_append_drop 5 body, hhead]
    rfl
  have hcov := m.length_covered
  have hsize : (damaged m body).length = m.packetSize := by
    rw [length_damaged]
    omega
  have hpos : HEADER_SIZE ≤ m.packetSize := by
    unfold packetSize
    omega
  have hfull : 5 ≤ (damaged m body ++ rest).length := by
    rw [List.length_append, hsize]
    simp only [HEADER_SIZE] at hpos
    omega
  have hword : readInt32 (damaged m body ++ rest) 1 = Int32.ofNat m.packetSize := by
    rw [← h.pkLen_eq, hbody]
    exact readInt32_of_drop (i := 1) (by rw [damaged]; simp; rfl)
  refine ⟨?_, ⟨hfull, hword, hpos, h.size_le⟩, ?_, ?_⟩
  · rw [hbody]
    rfl
  · rw [List.length_append, hsize]
    omega
  · rw [damaged, List.append_assoc, List.getElem?_append_right (by omega), List.append_assoc,
      List.getElem?_append_right (by rw [Codec.length_encode_int32]; omega),
      Codec.length_encode_int32, show m.packetSize - 1 - body.length - 4 = 0 by omega]
    rfl

/-- The scan ends at a packet that no longer has its checksum. -/
theorem scan_mismatch {crc : Bytes → UInt32} {ms : List TinyPBProtocol} {m : TinyPBProtocol}
    (hms : ∀ m ∈ ms, m.WellFormed crc) (hm : m.WellFormed crc) {body : Bytes}
    (hlen : body.length = m.covered.length) (hhead : body.take 5 = m.covered.take 5)
    (hcrc : crc body ≠ crc m.covered) (rest : Bytes) :
    let r := scan (frameDecoder crc) (frames (ms.map .tinyPB) ++ (damaged m body ++ rest))
    r.messages = ms ∧ r.rejected.isSome = true := by
  intro r
  have hcand := candidate_damaged hm hlen hhead rest
  have hcov := m.length_covered
  have hsize : (damaged m body).length = m.packetSize := by
    rw [length_damaged]
    omega
  have hbad : ¬ ∃ m', IsFrame crc ((damaged m body ++ rest).take m.packetSize) m' := by
    rintro ⟨m', hwf, htext⟩
    rw [← hsize, List.take_left, damaged, frame] at htext
    have hframe := congrArg List.length htext
    simp only [List.length_append, Codec.length_encode_int32, List.length_singleton] at hframe
    obtain ⟨hbody, htail⟩ := List.append_inj htext (by omega)
    have hsum := Codec.encode_injective Codec.int32 (List.append_inj_left' htail rfl)
    rw [hm.checkSum_eq, hwf.checkSum_eq] at hsum
    exact hcrc (hbody ▸ (congrArg Int32.toUInt32 hsum).symm)
  have hverdict : (frameDecoder crc).verdict (damaged m body ++ rest) = .reject m.packetSize :=
    verdict_eq_iff.mpr ⟨hcand, hbad⟩
  obtain ⟨hmsgs, hrej⟩ := scan_frames_append hms (damaged m body ++ rest)
  rw [scan_reject hverdict] at hmsgs hrej
  exact ⟨by rw [hmsgs]; simp [Result.messages], hrej⟩

/-- **Damage is seen.** Let a burst of at most 32 bits, or one or two bits anywhere, be
    flipped in a packet between its length word and its checksum. However the stream is cut,
    the packets in front of it are delivered, decoding ends there as fatal, and nothing of
    the packet or behind it is delivered. -/
theorem decode_damaged {ms : List TinyPBProtocol} {m : TinyPBProtocol}
    (hms : ∀ m ∈ ms, m.WellFormed calculateChecksum) (hm : m.WellFormed calculateChecksum)
    {body : Bytes} (hlen : body.length = m.covered.length)
    (hhead : body.take 5 = m.covered.take 5) (hne : body ≠ m.covered)
    (hdamage : Burst (bits body) (bits m.covered) ∨ TwoBits (bits body) (bits m.covered))
    {cs : List Bytes} {rest : Bytes} {b b' : TcpBuffer} {msgs : List TinyPBProtocol} {fatal : Bool}
    (hcs : cs.flatten = frames (ms.map .tinyPB) ++ (damaged m body ++ rest))
    (hb : b.readable = []) (h : decodeChunks calculateChecksum cs b = some (msgs, fatal, b')) :
    msgs = ms ∧ fatal = true := by
  have hcrc : calculateChecksum body ≠ calculateChecksum m.covered := by
    rcases hdamage with hburst | htwo
    · exact calculateChecksum_burst hlen hne hburst
    · refine calculateChecksum_two hlen hne ?_ htwo
      have hsize := hm.size_le
      have hcov := m.length_covered
      simp only [kMaxPacketSize] at hsize
      omega
  have hfeed := decodeChunks_feed calculateChecksum h
  rw [hb] at hfeed
  obtain ⟨hmsgs, hfatal, -⟩ := feed_spec [] (verdict_nil (frameDecoder calculateChecksum)) cs
  obtain ⟨hm1, hm2⟩ := scan_mismatch hms hm hlen hhead hcrc rest
  rw [hfeed, List.nil_append, hcs] at hmsgs hfatal
  exact ⟨hmsgs.trans hm1, hfatal.trans hm2⟩

/-- Other text in at most four adjacent bytes is a burst. -/
theorem burst_of_bytes (p s : Bytes) {x y : Bytes} (hlen : x.length = y.length)
    (h : x.length ≤ 4) : Burst (bits (p ++ (x ++ s))) (bits (p ++ (y ++ s))) := by
  have hbits : ∀ a b : Bytes, bits (a ++ b) = bits a ++ bits b := fun a b => by
    rw [bits, List.map_append, List.flatMap_append]
    rfl
  refine ⟨8 * p.length, fun i hi => ?_⟩
  rw [hbits, hbits, hbits p, hbits y]
  by_cases hp : i < (bits p).length
  · rw [List.getElem?_append_left hp, List.getElem?_append_left hp]
  · have hbehind : (bits x).length ≤ i - (bits p).length := by
      rw [length_bits] at hp ⊢
      rw [length_bits]
      omega
    have hxy : (bits x).length = (bits y).length := by rw [length_bits, length_bits, hlen]
    have hp : (bits p).length ≤ i := Nat.not_lt.mp hp
    rw [List.getElem?_append_right hp, List.getElem?_append_right hp,
      List.getElem?_append_right hbehind, List.getElem?_append_right (hxy ▸ hbehind), hxy]

/-- The length of the id of `markers` overwritten on the way. -/
theorem decode_damaged_markers :
    let m := sealed calculateChecksum markers
    let body := m.covered.take 5 ++ ([0, 0, 0, 2] ++ m.covered.drop 9)
    let s := damaged m body
    ∃ msgs fatal b', decodeChunks calculateChecksum [s.take 9, s.drop 9] (TcpBuffer.new 0) =
        some (msgs, fatal, b') ∧ msgs = [] ∧ fatal = true := by
  intro m body s
  obtain ⟨⟨msgs, fatal, b'⟩, h⟩ := Option.isSome_iff_exists.mp
    (@decodeChunks_isSome calculateChecksum [s.take 9, s.drop 9] (TcpBuffer.new 0) (by decide))
  have hm : m.WellFormed calculateChecksum := written_wellFormed _ _ (by decide)
  have hcovered : m.covered = m.covered.take 5 ++ ([0, 0, 0, 1] ++ m.covered.drop 9) := by
    decide +kernel
  have hms : ∀ m ∈ ([] : List TinyPBProtocol), m.WellFormed calculateChecksum := by simp
  have hlen : body.length = m.covered.length := by decide +kernel
  have hne : body ≠ m.covered := by decide +kernel
  have hcs : [s.take 9, s.drop 9].flatten =
      frames (([] : List TinyPBProtocol).map .tinyPB) ++ (damaged m body ++ []) := by
    simp [s, frames]
  refine ⟨msgs, fatal, b', h,
    decode_damaged hms hm hlen rfl hne (Or.inl ?_) hcs (by decide) h⟩
  rw [hcovered]
  exact burst_of_bytes _ _ rfl (by decide)

end RocketRpc.Coder
