import RocketRpc.Coder.Decoding
import RocketRpc.Tcp.BoundedBuffer

/-
  `decode` with every access checked.

  The functions of the decoder once more, over what `readableSpan()` shows: each of them gives
  nothing where it reads outside of these bytes, where a difference of two sizes or a sum is not
  the one of the numbers, and where a negative `int32_t` becomes a size. None of them ever does
  (`checkedParsePacket_eq`, `checkedDecodePass_eq`). The loop runs on fuel, and a pass that goes on
  has consumed something, so that one unit for each readable byte and one more are enough
  (`checkedDecodeLoop_eq`).
-/

namespace RocketRpc.Coder

open RocketRpc.Tcp Storage

/-! ## Checked reads -/

/-- Four of the bytes as a number. -/
def checkedReadInt32 (data : Bytes) (i : Nat) : Option Int32 :=
  (load data i 4).map fun bytes => readInt32 bytes 0

/-- `static_cast<std::size_t>`, of a number that is not negative. -/
def checkedSize (v : Int32) : Option Nat := if v < 0 then none else some v.toNatClampNeg

/-- `checkRemaining`; the difference is taken only behind the comparison. -/
def checkedRemaining (parseIndex pkEndIndex needBytes : Nat) : Option Bool :=
  if parseIndex > pkEndIndex then some false
  else do
    let rest ← Checked.sub pkEndIndex parseIndex
    some (decide (needBytes ≤ rest))

/-- Go on unless the packet is rejected. -/
def unlessRejected {α β : Type} (r : Option (Except String α))
    (next : α → Option (Except String β)) : Option (Except String β) :=
  r.bind fun
    | .error reason => some (.error reason)
    | .ok a => next a

def checkedReadLength (data : Bytes) (pkEndIndex parseIndex : Nat) (fieldName : String) :
    Option (Except String (Int32 × Nat)) := do
  let known ← checkedRemaining parseIndex pkEndIndex 4
  if !known then some (.error ("missing " ++ fieldName ++ " length"))
  else do
    let value ← checkedReadInt32 data parseIndex
    let parseIndex ← Checked.add 64 parseIndex 4
    if value < 0 then some (.error ("negative " ++ fieldName ++ " length"))
    else do
      let size ← checkedSize value
      let complete ← checkedRemaining parseIndex pkEndIndex size
      if !complete then some (.error ("oversized " ++ fieldName ++ " length"))
      else some (.ok (value, parseIndex))

def checkedReadString (data : Bytes) (pkEndIndex parseIndex : Nat) (fieldName : String) :
    Option (Except String (Int32 × Bytes × Nat)) :=
  unlessRejected (checkedReadLength data pkEndIndex parseIndex fieldName) fun (len, parseIndex) => do
    let size ← checkedSize len
    let text ← load data parseIndex size
    let next ← Checked.add 64 parseIndex size
    some (.ok (len, text, next))

def checkedReadErrCode (data : Bytes) (pkEndIndex parseIndex : Nat) :
    Option (Except String (Int32 × Nat)) := do
  let known ← checkedRemaining parseIndex pkEndIndex 4
  if !known then some (.error "missing error code")
  else do
    let errCode ← checkedReadInt32 data parseIndex
    let next ← Checked.add 64 parseIndex 4
    some (.ok (errCode, next))

def checkedReadPayload (crc : Bytes → UInt32) (data : Bytes)
    (pkStartIndex pkEndIndex parseIndex : Nat) : Option (Except String (Bytes × Int32)) := do
  let known ← checkedRemaining parseIndex pkEndIndex 4
  if !known then some (.error "missing checksum")
  else do
    let checksumIndex ← Checked.sub pkEndIndex 4
    if parseIndex > checksumIndex then some (.error "invalid protobuf payload length")
    else do
      let size ← Checked.sub checksumIndex parseIndex
      let pbData ← load data parseIndex size
      let known ← checkedRemaining checksumIndex pkEndIndex 4
      if !known then some (.error "missing checksum")
      else do
        let checkSum ← checkedReadInt32 data checksumIndex
        let covered ← Checked.sub checksumIndex pkStartIndex
        let bytes ← load data pkStartIndex covered
        if crc bytes ≠ checkSum.toUInt32 then some (.error "checksum mismatch")
        else some (.ok (pbData, checkSum))

def checkedParsePacket (crc : Bytes → UInt32) (data : Bytes) (pkStartIndex pkEndIndex : Nat)
    (pkLen : Int32) : Option (Except String TinyPBProtocol) := do
  let first ← Checked.add 64 pkStartIndex 5
  unlessRejected (checkedReadString data pkEndIndex first "msg_id")
    fun (msgIdLen, msgId, parseIndex) =>
  unlessRejected (checkedReadString data pkEndIndex parseIndex "method_name")
    fun (methodNameLen, methodName, parseIndex) =>
  unlessRejected (checkedReadErrCode data pkEndIndex parseIndex) fun (errCode, parseIndex) =>
  unlessRejected (checkedReadString data pkEndIndex parseIndex "err_info")
    fun (errInfoLen, errInfo, parseIndex) =>
  unlessRejected (checkedReadPayload crc data pkStartIndex pkEndIndex parseIndex)
    fun (pbData, checkSum) =>
      some (.ok { msgId, pkLen, msgIdLen, methodNameLen, methodName, errCode, errInfoLen,
                  errInfo, pbData, checkSum, parseSuccess := true })

/-! ## A checked pass, and the loop -/

/-- One pass of the loop of `decode` over the readable bytes, of which there are some; the log
    shows the first. -/
def checkedDecodePass (crc : Bytes → UInt32) (data : Bytes) : Option Pass := do
  let _ ← load data 0 1
  let readable := data.length
  let pkStartIndex := data.findIdx (· == PB_START)
  if pkStartIndex = readable then some (.done readable)
  else do
    let bytesFromStart ← Checked.sub readable pkStartIndex
    if bytesFromStart < 5 then some (.done pkStartIndex)
    else do
      let behind ← Checked.add 64 pkStartIndex 1
      let pkLen ← checkedReadInt32 data behind
      let invalid ←
        (if pkLen < Int32.ofNat HEADER_SIZE then some true
        else (checkedSize pkLen).map fun size => decide (size > kMaxPacketSize))
      if invalid then some (.resync behind)
      else do
        let packetSize ← checkedSize pkLen
        if bytesFromStart < packetSize then some (.done pkStartIndex)
        else do
          let stop ← Checked.add 64 pkStartIndex packetSize
          let pkEndIndex ← Checked.sub stop 1
          let last ← load data pkEndIndex 1
          if last ≠ [PB_END] then some (.resync behind)
          else do
            let message ← checkedParsePacket crc data pkStartIndex pkEndIndex pkLen
            let consumed ← Checked.add 64 pkEndIndex 1
            match message with
            | .error reason => some (.reject consumed reason)
            | .ok msg => some (.accept consumed msg)

def checkedMoveReadIndex (b : RawBuffer) (size : Nat) : Option RawBuffer := do
  let readable ← b.checkedReadAble
  if size < readable then do
    let readIndex ← Checked.add 64 b.readIndex size
    some { b with readIndex }
  else some { b with readIndex := kPrependSize, writeIndex := kPrependSize }

/-- The loop of `decode`; nothing also where the fuel is used up. -/
def checkedDecodeLoop (crc : Bytes → UInt32) :
    Nat → RawBuffer → List TinyPBProtocol → Option (DecodeResult × RawBuffer)
  | 0, _, _ => none
  | fuel + 1, buffer, messages => do
    let readable ← buffer.checkedReadAble
    if readable = 0 then some (⟨messages, false⟩, buffer)
    else do
      let data ← load buffer.buffer buffer.readIndex readable
      match ← checkedDecodePass crc data with
      | .done n => (checkedMoveReadIndex buffer n).map fun b => (⟨messages, false⟩, b)
      | .resync n =>
        (checkedMoveReadIndex buffer n).bind fun b => checkedDecodeLoop crc fuel b messages
      | .reject n _ => (checkedMoveReadIndex buffer n).map fun b => (⟨messages, true⟩, b)
      | .accept n msg =>
        (checkedMoveReadIndex buffer n).bind fun b =>
          checkedDecodeLoop crc fuel b (messages ++ [msg])

/-! ## The parser -/

theorem checkedReadInt32_eq {data : Bytes} {i : Nat} (h : i + 4 ≤ data.length) :
    checkedReadInt32 data i = some (readInt32 data i) := by
  rw [checkedReadInt32, load_of_le h, Option.map_some, ← Nat.add_zero i, ← readInt32_drop,
    Nat.add_zero]
  simp [readInt32, slice, List.getD_eq_getElem?_getD]

theorem checkedSize_eq {v : Int32} (h : ¬ v < 0) : checkedSize v = some v.toNatClampNeg := if_neg h

theorem checkedRemaining_eq (i e n : Nat) :
    checkedRemaining i e n = some (checkRemaining i e n) := by
  unfold checkedRemaining checkRemaining
  split
  · rename_i hbehind
    simp [hbehind]
  · rename_i hfront
    rw [Checked.sub_of_le (Nat.not_lt.mp hfront), Option.bind_eq_bind, Option.bind_some]
    have hneed : decide (n > e - i) = !decide (n ≤ e - i) := by
      rw [← decide_not, decide_eq_decide]
      omega
    rw [hneed, decide_eq_false hfront, Bool.false_or, Bool.not_not]

theorem unlessRejected_eq {α β : Type} {x : Option (Except String α)} {r : Except String α}
    {f : α → Option (Except String β)} {g : α → Except String β} (hx : x = some r)
    (hf : ∀ a, r = .ok a → f a = some (g a)) : unlessRejected x f = some (r >>= g) := by
  rw [unlessRejected, hx, Option.bind_some]
  cases r with
  | error reason => rfl
  | ok a => exact hf a rfl

section Parser

variable {data : Bytes} {e : Nat} (he : e < data.length) (hdata : data.length ≤ maxVectorSize)

include he hdata

theorem checkedReadLength_eq (i : Nat) (name : String) :
    checkedReadLength data e i name = some (readLength data e i name) := by
  unfold maxVectorSize at hdata
  unfold checkedReadLength readLength
  simp only [Option.bind_eq_bind]
  rw [checkedRemaining_eq, Option.bind_some]
  split
  · rfl
  rename_i hknown
  have hrange := checkRemaining_eq_true.mp (by simpa using hknown)
  rw [checkedReadInt32_eq (by omega), Option.bind_some,
    Checked.add_of_lt (by omega), Option.bind_some]
  by_cases hneg : readInt32 data i < 0
  · rw [if_pos hneg, if_pos hneg]
  rw [if_neg hneg, if_neg hneg, checkedSize_eq hneg, Option.bind_some,
    checkedRemaining_eq, Option.bind_some]
  split
  · rfl
  · rfl

theorem checkedReadString_eq (i : Nat) (name : String) :
    checkedReadString data e i name = some (readString data e i name) := by
  unfold maxVectorSize at hdata
  refine unlessRejected_eq (checkedReadLength_eq he hdata i name) ?_
  rintro ⟨len, j⟩ hlen
  obtain ⟨-, hpos, -, hle⟩ := readLength_eq_ok_iff.mp hlen
  simp only [Option.bind_eq_bind]
  rw [checkedSize_eq (Int32.not_lt.mpr hpos), Option.bind_some,
    load_of_le (by omega), Option.bind_some, Checked.add_of_lt (by omega)]
  rfl

theorem checkedReadErrCode_eq (i : Nat) :
    checkedReadErrCode data e i = some (readErrCode data e i) := by
  unfold maxVectorSize at hdata
  unfold checkedReadErrCode readErrCode
  simp only [Option.bind_eq_bind]
  rw [checkedRemaining_eq, Option.bind_some]
  split
  · rfl
  rename_i hknown
  have hrange := checkRemaining_eq_true.mp (by simpa using hknown)
  rw [checkedReadInt32_eq (by omega), Checked.add_of_lt (by omega)]
  rfl

omit hdata in
theorem checkedReadPayload_eq (crc : Bytes → UInt32) {s : Nat} (hs : s + 4 ≤ e) (i : Nat) :
    checkedReadPayload crc data s e i = some (readPayload crc data s e i) := by
  unfold checkedReadPayload readPayload
  simp only [Option.bind_eq_bind]
  rw [checkedRemaining_eq, Option.bind_some]
  by_cases hmissing : i > e ∨ 4 > e - i
  · have hknown : ¬ checkRemaining i e 4 = true := by
      rw [checkRemaining_eq_true]
      omega
    rw [if_pos hmissing, if_pos (by simpa using hknown)]
  have hknown : checkRemaining i e 4 = true := checkRemaining_eq_true.mpr (by omega)
  rw [if_neg hmissing, hknown, if_neg (by simp), Checked.sub_of_le (by omega),
    Option.bind_some]
  split
  · rfl
  rename_i hpayload
  rw [Checked.sub_of_le (by omega), Option.bind_some, load_of_le (by omega),
    Option.bind_some, checkedRemaining_eq, Option.bind_some]
  split
  · rfl
  rw [checkedReadInt32_eq (by omega), Option.bind_some,
    Checked.sub_of_le (by omega), Option.bind_some, load_of_le (by omega),
    Option.bind_some]
  split <;> rfl

/-- No field is read outside of the packet, whatever the lengths in it say. -/
theorem checkedParsePacket_eq (crc : Bytes → UInt32) {s : Nat} (hs : s + 4 ≤ e) (pkLen : Int32) :
    checkedParsePacket crc data s e pkLen = some (parsePacket crc data s e pkLen) := by
  have hmax : data.length ≤ 2 ^ 63 - 1 := hdata
  unfold checkedParsePacket parsePacket
  simp only [Option.bind_eq_bind]
  rw [Checked.add_of_lt (by omega), Option.bind_some]
  refine unlessRejected_eq (checkedReadString_eq he hdata _ _) fun _ _ => ?_
  refine unlessRejected_eq (checkedReadString_eq he hdata _ _) fun _ _ => ?_
  refine unlessRejected_eq (checkedReadErrCode_eq he hdata _) fun _ _ => ?_
  refine unlessRejected_eq (checkedReadString_eq he hdata _ _) fun _ _ => ?_
  exact unlessRejected_eq (checkedReadPayload_eq he crc hs _) fun _ _ => rfl

end Parser

/-! ## The loop -/

theorem slice_one {data : Bytes} {i : Nat} (h : i < data.length) :
    slice data i 1 = [data.getD i 0] := by
  rw [slice, List.drop_eq_getElem_cons h, List.getD_eq_getElem?_getD, List.getElem?_eq_getElem h]
  rfl

/-- A pass reads nothing outside of the readable bytes. -/
theorem checkedDecodePass_eq (crc : Bytes → UInt32) {data : Bytes} (hne : 0 < data.length)
    (hdata : data.length ≤ maxVectorSize) :
    checkedDecodePass crc data = some (decodePass crc data) := by
  have hmax : data.length ≤ 2 ^ 63 - 1 := hdata
  have hfirst := @List.findIdx_le_length _ (· == PB_START) data
  unfold checkedDecodePass decodePass
  simp only [Option.bind_eq_bind]
  rw [load_of_le (by omega), Option.bind_some]
  by_cases hnone : data.findIdx (· == PB_START) = data.length
  · rw [if_pos hnone, if_pos hnone]
  rw [if_neg hnone, if_neg hnone, Checked.sub_of_le hfirst, Option.bind_some]
  by_cases hshort : data.length - data.findIdx (· == PB_START) < 5
  · rw [if_pos hshort, if_pos hshort]
  rw [if_neg hshort, if_neg hshort, Checked.add_of_lt (by omega), Option.bind_some,
    checkedReadInt32_eq (by omega), Option.bind_some]
  generalize data.findIdx (· == PB_START) = s at *
  generalize hlen : readInt32 data (s + 1) = pkLen
  by_cases hsmall : pkLen < Int32.ofNat HEADER_SIZE
  · rw [if_pos hsmall, Option.bind_some, if_pos rfl, if_pos (Or.inl hsmall)]
  have hlow := not_lt_headerSize_iff.mp hsmall
  have hneg : ¬ pkLen < 0 := by
    intro hneg
    have hword : (Int32.ofNat HEADER_SIZE).toInt = HEADER_SIZE :=
      Int32.toInt_ofNat_of_lt (by decide)
    rw [Int32.lt_iff_toInt_lt] at hneg hsmall
    rw [hword] at hsmall
    rw [Int32.toInt_zero] at hneg
    omega
  rw [if_neg hsmall, checkedSize_eq hneg, Option.map_some, Option.bind_some]
  by_cases hlarge : pkLen.toNatClampNeg > kMaxPacketSize
  · rw [if_pos (decide_eq_true hlarge), if_pos (Or.inr hlarge)]
  have hvalid : ¬ (pkLen < Int32.ofNat HEADER_SIZE ∨ pkLen.toNatClampNeg > kMaxPacketSize) :=
    not_or.mpr ⟨hsmall, hlarge⟩
  rw [if_neg (by simpa using hlarge), if_neg hvalid, Option.bind_some]
  by_cases hpartial : data.length - s < pkLen.toNatClampNeg
  · rw [if_pos hpartial, if_pos hpartial]
  have hheader : HEADER_SIZE = 26 := rfl
  rw [if_neg hpartial, if_neg hpartial, Checked.add_of_lt (by omega), Option.bind_some,
    Checked.sub_of_le (by omega), Option.bind_some, load_of_le (by omega), Option.bind_some,
    slice_one (by omega)]
  by_cases hend : data.getD (s + pkLen.toNatClampNeg - 1) 0 = PB_END
  · have hlast : ¬ [data.getD (s + pkLen.toNatClampNeg - 1) 0] ≠ [PB_END] := by
      rw [hend]
      simp
    rw [if_neg hlast, if_neg (not_not.mpr hend), Checked.add_of_lt (by omega),
      checkedParsePacket_eq (by omega) hdata crc (by omega), Option.bind_some, Option.bind_some]
    cases parsePacket crc data s (s + pkLen.toNatClampNeg - 1) pkLen with
    | error reason => rfl
    | ok msg => rfl
  · have hlast : [data.getD (s + pkLen.toNatClampNeg - 1) 0] ≠ [PB_END] := by simpa using hend
    rw [if_pos hlast, if_pos hend]

theorem checkedMoveReadIndex_eq {b : TcpBuffer} (hb : b.Allocated) (n : Nat) :
    checkedMoveReadIndex b.raw n = some (b.moveReadIndex n).raw := by
  have hsize : b.buffer.length ≤ 2 ^ 63 - 1 := hb
  have hreadable := b.readIndex_add_readAble_le
  unfold checkedMoveReadIndex TcpBuffer.moveReadIndex TcpBuffer.consume
  rw [TcpBuffer.checkedReadAble_eq, Option.bind_eq_bind, Option.bind_some]
  split
  · rw [TcpBuffer.raw_readIndex, Checked.add_of_lt (by omega)]
    rfl
  · rfl

/-- The loop ends before the fuel, and does what `decode` does. -/
theorem checkedDecodeLoop_eq (crc : Bytes → UInt32) (b : TcpBuffer) (hb : b.Allocated)
    (messages : List TinyPBProtocol) {fuel : Nat} (hfuel : b.readAble < fuel) :
    checkedDecodeLoop crc fuel b.raw messages =
      some ((decodeLoop crc b messages).1, (decodeLoop crc b messages).2.raw) := by
  induction fuel generalizing b messages with
  | zero => omega
  | succ fuel ih =>
    rw [checkedDecodeLoop, decodeLoop]
    simp only [Option.bind_eq_bind]
    rw [TcpBuffer.checkedReadAble_eq, Option.bind_some]
    by_cases hempty : b.readAble = 0
    · rw [if_pos hempty, if_pos hempty]
    have hne : 0 < b.readable.length := by
      rw [TcpBuffer.length_readable]
      omega
    have hlen : b.readable.length ≤ maxVectorSize := by
      have hreadable := b.readIndex_add_readAble_le
      rw [TcpBuffer.length_readable]
      unfold TcpBuffer.Allocated at hb
      omega
    have hload : load b.raw.buffer b.raw.readIndex b.readAble = some b.readable :=
      load_of_le b.readIndex_add_readAble_le
    -- a pass that goes on leaves less to read
    have hless : ∀ n, (decodePass crc b.readable = .resync n ∨
        ∃ msg, decodePass crc b.readable = .accept n msg) →
        (b.moveReadIndex n).readAble < fuel := by
      intro n hpass
      have hpos := (decodePass_bounds crc b.readable hpass).1
      rw [← TcpBuffer.length_readable, TcpBuffer.moveReadIndex_readable, List.length_drop,
        TcpBuffer.length_readable]
      omega
    rw [if_neg hempty, if_neg hempty, hload, Option.bind_some,
      checkedDecodePass_eq crc hne hlen, Option.bind_some]
    split
    · rename_i n hpass
      rw [hpass, checkedMoveReadIndex_eq hb]
      rfl
    · rename_i n hpass
      rw [hpass, checkedMoveReadIndex_eq hb, Option.bind_some]
      exact ih (b.moveReadIndex n) (TcpBuffer.consume_allocated hb n) _ (hless n (Or.inl hpass))
    · rename_i n reason hpass
      rw [hpass, checkedMoveReadIndex_eq hb]
      rfl
    · rename_i n msg hpass
      rw [hpass, checkedMoveReadIndex_eq hb, Option.bind_some]
      exact ih (b.moveReadIndex n) (TcpBuffer.consume_allocated hb n) _
        (hless n (Or.inr ⟨msg, hpass⟩))

/-! ## Main result -/

/-- Whatever is readable, `decode` reads inside of it, takes no difference that wraps around and
    no negative length for a size, and ends: a pass that goes on has consumed at least one byte,
    and no more than there are. -/
theorem decode_safe (crc : Bytes → UInt32) (b : TcpBuffer) (hb : b.Allocated) :
    checkedDecodeLoop crc (b.readAble + 1) b.raw [] =
        some ((decode crc b).1, (decode crc b).2.raw) ∧
      ∀ data : Bytes, 0 < data.length → data.length ≤ maxVectorSize →
        ∃ pass, checkedDecodePass crc data = some pass ∧
          ∀ n, (pass = .resync n ∨ ∃ msg, pass = .accept n msg) → 0 < n ∧ n ≤ data.length := by
  refine ⟨checkedDecodeLoop_eq crc b hb [] (Nat.lt_succ_self _), fun data hne hdata => ?_⟩
  exact ⟨decodePass crc data, checkedDecodePass_eq crc hne hdata, fun n hpass =>
    decodePass_bounds crc data hpass⟩

/-- Garbage, and a frame that promises more than there is. -/
def garbled : TcpBuffer :=
  ((TcpBuffer.new 16).append [0xFF, PB_START, 0, 0, 0, 0, PB_START, 0, 0, 0, 26]).2

theorem decode_safe_garbled :
    (decode (fun _ => 0) garbled).1 = ⟨[], false⟩ ∧
      (decode (fun _ => 0) garbled).2.raw.readable = [PB_START, 0, 0, 0, 26] := by
  have hb : garbled.Allocated :=
    TcpBuffer.append_allocated (TcpBuffer.Bounded.new (by decide)).allocated _
  have hsafe := (decode_safe (fun _ => 0) garbled hb).1
  have hrun : checkedDecodeLoop (fun _ => 0) (garbled.readAble + 1) garbled.raw [] =
      some (⟨[], false⟩, ⟨garbled.buffer, 14, 19⟩) := by decide +kernel
  rw [hrun] at hsafe
  obtain ⟨hresult, hraw⟩ := Prod.mk.inj (Option.some.inj hsafe)
  rw [← hresult, ← hraw]
  exact ⟨rfl, by decide +kernel⟩

end RocketRpc.Coder
