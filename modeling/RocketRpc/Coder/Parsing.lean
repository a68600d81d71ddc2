import RocketRpc.Coder.TinyPBCoder

/-
  The field parser of `decode` accepts the frames of the grammar and nothing else.

  Each reader is described by what stands at its index: the rest of the data from the
  index on is the text of the field followed by the rest from the index it returns
  (`readString_eq_ok_iff`, `readErrCode_eq_ok_iff`, `readPayload_eq_ok_iff`). The four
  fields together are `parsePacket_eq_ok_iff`.
-/

namespace RocketRpc.Coder

open RocketRpc.Tcp Storage

/-! ## Reading at an index -/

theorem readInt32_drop (data : Bytes) (i k : Nat) :
    readInt32 (data.drop i) k = readInt32 data (i + k) := by
  simp [readInt32, List.getD_eq_getElem?_getD, Nat.add_assoc]

/-- `readInt32` inside the data reads what the codec of words reads. -/
theorem decode_drop {data : Bytes} {i : Nat} (h : i + 4 ≤ data.length) :
    Codec.int32.decode (data.drop i) = some (readInt32 data i, data.drop (i + 4)) := by
  have hlen : 4 ≤ (data.drop i).length := by
    rw [List.length_drop]
    omega
  rw [← List.drop_drop, ← Nat.add_zero i, ← readInt32_drop, Nat.add_zero]
  match data.drop i, hlen with
  | a :: b :: c :: d :: rest, _ => rfl

/-- The word at an index is what its four bytes encode. -/
theorem drop_eq_readInt32 {data : Bytes} {i : Nat} (h : i + 4 ≤ data.length) :
    data.drop i = Codec.int32.encode (readInt32 data i) ++ data.drop (i + 4) :=
  Codec.int32.encode_of_decode (decode_drop h)

theorem readInt32_of_drop {data rest : Bytes} {i : Nat} {v : Int32}
    (h : data.drop i = Codec.int32.encode v ++ rest) : readInt32 data i = v := by
  have hlen := congrArg List.length h
  rw [List.length_drop, List.length_append, Codec.length_encode_int32] at hlen
  have hdecode := @decode_drop data i (by omega)
  rw [h, Codec.int32.decode_encode, Option.some.injEq, Prod.mk.injEq] at hdecode
  exact hdecode.1.symm

theorem drop_of_drop {data pre rest : Bytes} {i : Nat} (h : data.drop i = pre ++ rest) :
    data.drop (i + pre.length) = rest := by
  rw [← List.drop_drop, h, List.drop_left]

theorem slice_of_drop {data pre rest : Bytes} {i : Nat} (h : data.drop i = pre ++ rest) :
    slice data i pre.length = pre := by
  rw [slice, h, List.take_left]

theorem drop_eq_slice (data : Bytes) (i n : Nat) :
    data.drop i = slice data i n ++ data.drop (i + n) := by
  rw [slice, ← List.drop_drop, List.take_append_drop]

/-! ## The readers -/

theorem bind_eq_ok {ε α β : Type} {x : Except ε α} {f : α → Except ε β} {b : β} :
    (x >>= f) = .ok b ↔ ∃ a, x = .ok a ∧ f a = .ok b := by
  cases x with
  | error e => simp [bind, Except.bind]
  | ok a => simp [bind, Except.bind]

theorem checkRemaining_eq_true {i e n : Nat} : checkRemaining i e n = true ↔ i + n ≤ e ∧ i ≤ e := by
  simp only [checkRemaining, Bool.not_eq_true', Bool.or_eq_false_iff, decide_eq_false_iff_not]
  omega

theorem readLength_eq_ok_iff {data : Bytes} {e i j : Nat} {name : String} {v : Int32} :
    readLength data e i name = .ok (v, j) ↔
      v = readInt32 data i ∧ 0 ≤ v ∧ j = i + 4 ∧ j + v.toNatClampNeg ≤ e := by
  unfold readLength
  simp only [Bool.not_eq_true', ← Bool.not_eq_true, checkRemaining_eq_true]
  split
  · simp only [reduceCtorEq, false_iff]
    omega
  split
  · rename_i hneg
    simp only [reduceCtorEq, false_iff]
    rintro ⟨rfl, hpos, -⟩
    exact Int32.not_lt.mpr hpos hneg
  split
  · simp only [reduceCtorEq, false_iff]
    rintro ⟨rfl, -, rfl, hle⟩
    omega
  · rename_i hneg _
    simp only [Except.ok.injEq, Prod.mk.injEq]
    constructor
    · rintro ⟨rfl, rfl⟩
      exact ⟨rfl, Int32.not_lt.mp hneg, rfl, by omega⟩
    · rintro ⟨rfl, -, rfl, -⟩
      exact ⟨rfl, rfl⟩

theorem readString_eq_ok_iff {data : Bytes} {e i j : Nat} {name : String} {v : Int32} {w : Bytes}
    (he : e ≤ data.length) :
    readString data e i name = .ok (v, w, j) ↔
      v = Int32.ofNat w.length ∧ w.length < 0x80000000 ∧ j = i + 4 + w.length ∧ j ≤ e ∧
        data.drop i = Codec.int32.encode v ++ (w ++ data.drop j) := by
  unfold readString
  rw [bind_eq_ok]
  constructor
  · rintro ⟨⟨v', j'⟩, hlen, h⟩
    obtain ⟨rfl, rfl, rfl⟩ : v' = v ∧ slice data j' v'.toNatClampNeg = w ∧
        j' + v'.toNatClampNeg = j := by simpa [pure, Except.pure] using h
    obtain ⟨rfl, hpos, rfl, hle⟩ := readLength_eq_ok_iff.mp hlen
    have hw : (slice data (i + 4) (readInt32 data i).toNatClampNeg).length =
        (readInt32 data i).toNatClampNeg := length_slice_of_le (by omega)
    refine ⟨?_, ?_, ?_, hle, ?_⟩
    · rw [hw, Int32.ofNat_toNatClampNeg _ hpos]
    · rw [hw]
      exact Int32.toNatClampNeg_lt _
    · rw [hw]
    · rw [← drop_eq_slice]
      exact drop_eq_readInt32 (by omega)
  · rintro ⟨rfl, hw, rfl, hle, h⟩
    have hn : (Int32.ofNat w.length).toNatClampNeg = w.length :=
      Int32.toNatClampNeg_ofNat_of_lt hw
    refine ⟨(Int32.ofNat w.length, i + 4), readLength_eq_ok_iff.mpr ⟨?_, ?_, rfl, ?_⟩, ?_⟩
    · exact (readInt32_of_drop h).symm
    · rw [Int32.le_iff_toInt_le, Int32.toInt_ofNat_of_lt hw]
      exact Int.natCast_nonneg _
    · rw [hn]
      exact hle
    · have hs := drop_of_drop h
      rw [Codec.length_encode_int32] at hs
      simp only [hn, slice_of_drop hs]
      rfl

theorem readErrCode_eq_ok_iff {data : Bytes} {e i j : Nat} {v : Int32} (he : e ≤ data.length) :
    readErrCode data e i = .ok (v, j) ↔
      j = i + 4 ∧ j ≤ e ∧ data.drop i = Codec.int32.encode v ++ data.drop j := by
  unfold readErrCode
  simp only [Bool.not_eq_true', ← Bool.not_eq_true, checkRemaining_eq_true]
  split
  · simp only [reduceCtorEq, false_iff]
    omega
  · simp only [Except.ok.injEq, Prod.mk.injEq]
    constructor
    · rintro ⟨rfl, rfl⟩
      exact ⟨rfl, by omega, drop_eq_readInt32 (by omega)⟩
    · rintro ⟨rfl, -, h⟩
      exact ⟨readInt32_of_drop h, rfl⟩

theorem readPayload_eq_ok_iff {crc : Bytes → UInt32} {data : Bytes} {s e i : Nat} {pb : Bytes}
    {sum : Int32} (he : e ≤ data.length) :
    readPayload crc data s e i = .ok (pb, sum) ↔
      i + pb.length + 4 = e ∧ sum = (crc (slice data s (e - 4 - s))).toInt32 ∧
        data.drop i = pb ++ (Codec.int32.encode sum ++ data.drop e) := by
  unfold readPayload
  simp only [Bool.not_eq_true', ← Bool.not_eq_true, checkRemaining_eq_true]
  split
  · simp only [reduceCtorEq, false_iff]
    omega
  rw [if_neg (by omega), if_neg (by omega)]
  have hpb : (slice data i (e - 4 - i)).length = e - 4 - i := length_slice_of_le (by omega)
  split
  · rename_i hne
    simp only [reduceCtorEq, false_iff]
    rintro ⟨hlen, rfl, h⟩
    have hs := drop_of_drop h
    rw [show i + pb.length = e - 4 by omega] at hs
    rw [readInt32_of_drop hs] at hne
    exact hne rfl
  · rename_i heq
    simp only [Except.ok.injEq, Prod.mk.injEq]
    constructor
    · rintro ⟨rfl, rfl⟩
      refine ⟨by omega, ?_, ?_⟩
      · rw [Decidable.not_not.mp heq]
        rfl
      · have hword : data.drop (e - 4) = _ := drop_eq_readInt32 (by omega)
        rw [show e - 4 + 4 = e by omega] at hword
        rw [← hword]
        have hrest := drop_eq_slice data i (e - 4 - i)
        rwa [show i + (e - 4 - i) = e - 4 by omega] at hrest
    · rintro ⟨hlen, rfl, h⟩
      have hs := drop_of_drop h
      rw [show i + pb.length = e - 4 by omega] at hs
      refine ⟨?_, readInt32_of_drop hs⟩
      rw [show e - 4 - i = pb.length by omega, slice_of_drop h]

/-- A string that stands at an index is read. -/
theorem readString_of_drop {data rest w : Bytes} {e i : Nat} (name : String)
    (he : e ≤ data.length) (hw : w.length < 0x80000000) (hle : i + 4 + w.length ≤ e)
    (h : data.drop i = Codec.int32.encode (Int32.ofNat w.length) ++ (w ++ rest)) :
    readString data e i name = .ok (Int32.ofNat w.length, w, i + 4 + w.length) ∧
      data.drop (i + 4 + w.length) = rest := by
  have hrest : data.drop (i + 4 + w.length) = rest := drop_of_drop (drop_of_drop h)
  refine ⟨(readString_eq_ok_iff he).mpr ⟨rfl, hw, rfl, hle, ?_⟩, hrest⟩
  rw [hrest]
  exact h

/-! ## The packet -/

/-- The fields of a packet are parsed exactly if the packet is a frame, and then into its
    record. -/
theorem parsePacket_eq_ok_iff {crc : Bytes → UInt32} {data : Bytes} {s e : Nat} {pkLen : Int32}
    {m : TinyPBProtocol} (hse : s ≤ e) (he : e < data.length) (hmax : e + 1 - s ≤ kMaxPacketSize)
    (hlen : pkLen = Int32.ofNat (e + 1 - s))
    (hstart : data.drop s = PB_START :: (Codec.int32.encode pkLen ++ data.drop (s + 5)))
    (hend : data.drop e = PB_END :: data.drop (e + 1)) :
    parsePacket crc data s e pkLen = .ok m ↔ IsFrame crc (slice data s (e + 1 - s)) m := by
  have hle := Nat.le_of_lt he
  unfold parsePacket
  simp only [bind_eq_ok, Prod.exists]
  constructor
  · rintro ⟨idLen, id, i₁, h₁, nameLen, name, i₂, h₂, code, i₃, h₃, infoLen, info, i₄, h₄, pb,
      sum, h₅, hm⟩
    obtain ⟨rfl, -, rfl, -, h₁⟩ := (readString_eq_ok_iff hle).mp h₁
    obtain ⟨rfl, -, rfl, -, h₂⟩ := (readString_eq_ok_iff hle).mp h₂
    obtain ⟨rfl, -, h₃⟩ := (readErrCode_eq_ok_iff hle).mp h₃
    obtain ⟨rfl, -, rfl, -, h₄⟩ := (readString_eq_ok_iff hle).mp h₄
    obtain ⟨hpb, hsum, h₅⟩ := (readPayload_eq_ok_iff hle).mp h₅
    have hm := Except.ok.inj hm
    have htext : data.drop s = m.frame ++ data.drop (e + 1) := by
      rw [hstart, h₁, h₂, h₃, h₄, h₅, hend, ← hm]
      simp [TinyPBProtocol.frame, TinyPBProtocol.covered]
    have hsize : m.packetSize = e + 1 - s := by
      simp only [← hm, TinyPBProtocol.packetSize, HEADER_SIZE]
      omega
    have hcov : slice data s (e - 4 - s) = m.covered := by
      rw [TinyPBProtocol.frame, List.append_assoc] at htext
      rw [show e - 4 - s = m.covered.length by have := m.length_covered; omega,
        slice_of_drop htext]
    refine ⟨?_, ?_⟩
    · subst hm
      exact ⟨hsize ▸ hmax, hsize ▸ hlen, rfl, rfl, rfl, by rw [← hcov]; exact hsum, rfl⟩
    · rw [← hsize, ← TinyPBProtocol.length_frame, slice_of_drop htext]
  · rintro ⟨hwf, htext⟩
    have hsmall : kMaxPacketSize < 0x80000000 := by decide
    have hsize : m.packetSize = e + 1 - s := by
      rw [← TinyPBProtocol.length_frame, ← htext, length_slice_of_le (by omega)]
    have hparts := hsize
    simp only [TinyPBProtocol.packetSize, HEADER_SIZE] at hparts
    have h₀ : data.drop s = m.frame ++ data.drop (e + 1) := by
      have hsplit := drop_eq_slice data s (e + 1 - s)
      rwa [htext, show s + (e + 1 - s) = e + 1 by omega] at hsplit
    have hcov : slice data s (e - 4 - s) = m.covered := by
      have htext' := h₀
      rw [TinyPBProtocol.frame, List.append_assoc] at htext'
      rw [show e - 4 - s = m.covered.length by have := m.length_covered; omega,
        slice_of_drop htext']
    -- what follows the length word, field by field
    have h₁ : data.drop (s + 5) = Codec.int32.encode (Int32.ofNat m.msgId.length) ++ (m.msgId ++
        (Codec.int32.encode (Int32.ofNat m.methodName.length) ++ (m.methodName ++
        (Codec.int32.encode m.errCode ++ (Codec.int32.encode (Int32.ofNat m.errInfo.length) ++
        (m.errInfo ++ (m.pbData ++ (Codec.int32.encode m.checkSum ++ data.drop e)))))))) := by
      have hbody : data.drop s = (PB_START :: Codec.int32.encode m.pkLen) ++
          (Codec.int32.encode m.msgIdLen ++ (m.msgId ++
          (Codec.int32.encode m.methodNameLen ++ (m.methodName ++
          (Codec.int32.encode m.errCode ++ (Codec.int32.encode m.errInfoLen ++
          (m.errInfo ++ (m.pbData ++ (Codec.int32.encode m.checkSum ++ data.drop e)))))))))  := by
        rw [h₀, hend]
        simp [TinyPBProtocol.frame, TinyPBProtocol.covered]
      rw [← hwf.msgIdLen_eq, ← hwf.methodNameLen_eq, ← hwf.errInfoLen_eq]
      exact drop_of_drop hbody
    obtain ⟨r₁, h₂⟩ := readString_of_drop "msg_id" hle (by omega) (by omega) h₁
    obtain ⟨r₂, h₃⟩ := readString_of_drop "method_name" hle (by omega) (by omega) h₂
    have h₄ := drop_of_drop h₃
    rw [Codec.length_encode_int32] at h₄
    have r₃ := (readErrCode_eq_ok_iff hle).mpr ⟨rfl, by omega, h₃.trans (by rw [h₄])⟩
    obtain ⟨r₄, h₅⟩ := readString_of_drop "err_info" hle (by omega) (by omega) h₄
    have r₅ : readPayload crc data s e _ = .ok (m.pbData, m.checkSum) :=
      (readPayload_eq_ok_iff hle).mpr ⟨by omega, by rw [hcov]; exact hwf.checkSum_eq, h₅⟩
    refine ⟨_, _, _, r₁, _, _, _, r₂, _, _, r₃, _, _, _, r₄, _, _, r₅, ?_⟩
    have hpk : pkLen = m.pkLen := by rw [hlen, hwf.pkLen_eq, hsize]
    simp only [hpk, ← hwf.msgIdLen_eq, ← hwf.methodNameLen_eq, ← hwf.errInfoLen_eq, ← hwf.parsed]
    rfl

end RocketRpc.Coder
