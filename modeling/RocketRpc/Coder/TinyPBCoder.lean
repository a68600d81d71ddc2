import RocketRpc.Coder.TinyPBProtocol

/-
  The TinyPB coder (`rocket/net/coder/tinypb_coder.cc`): `encode` and `decode`.

  Both are stated over any checksum `crc`; `calculateChecksum` is the one of the sources.
  `decode` works on indices into the readable bytes, as the sources do; `decodePass` is one
  pass of its loop.
-/

namespace RocketRpc.Coder

open RocketRpc.Tcp Storage

/-! ## The checksum (`3rd-party/CRC.h` with the parameters `CRC_32`) -/

def polynomial : UInt32 := 0x04C11DB7

def initialValue : UInt32 := 0xFFFFFFFF

def finalXOR : UInt32 := 0xFFFFFFFF

/-- `Reflect(value, numBits)`. -/
def reflect (value : UInt32) (numBits : Nat) : UInt32 :=
  ((List.range numBits).foldl (fun (reversed, v) _ => ((reversed <<< 1) ||| (v &&& 1), v >>> 1))
    ((0 : UInt32), value)).1

/-- The inner loop of `CalculateRemainder` for reflected input: one byte. -/
def remainderByte (poly remainder : UInt32) (byte : UInt8) : UInt32 :=
  (List.range 8).foldl (fun r _ => if r &&& 1 ≠ 0 then (r >>> 1) ^^^ poly else r >>> 1)
    (remainder ^^^ byte.toUInt32)

def calculateRemainder (data : Bytes) (remainder : UInt32) : UInt32 :=
  data.foldl (remainderByte (reflect polynomial 32)) remainder

def calculateChecksum (data : Bytes) : UInt32 := calculateRemainder data initialValue ^^^ finalXOR

/-! ## Encoding -/

/-- `writeInt32To(p, value)`, where `p` is what has been written so far. -/
def writeInt32To (p : Bytes) (value : Int32) : Bytes := p ++ Codec.encode32 value.toUInt32

def appendTo (p data : Bytes) : Bytes := p ++ data

/-- What `encode` writes in front of the checksum. -/
def writeBody (m : TinyPBProtocol) (pkLen : Int32) : Bytes :=
  let p := [PB_START]
  let p := writeInt32To p pkLen
  let p := writeInt32To p (Int32.ofNat m.msgId.length)
  let p := appendTo p m.msgId
  let p := writeInt32To p (Int32.ofNat m.methodName.length)
  let p := appendTo p m.methodName
  let p := writeInt32To p m.errCode
  let p := writeInt32To p (Int32.ofNat m.errInfo.length)
  let p := appendTo p m.errInfo
  appendTo p m.pbData

/-- The whole packet: body, checksum, end. -/
def writePacket (crc : Bytes → UInt32) (m : TinyPBProtocol) (pkLen : Int32) : Bytes :=
  let p := writeBody m pkLen
  let p := writeInt32To p (crc p).toInt32
  p ++ [PB_END]

theorem length_writePacket (crc : Bytes → UInt32) (m : TinyPBProtocol) (pkLen : Int32) :
    (writePacket crc m pkLen).length = m.packetSize := by
  simp only [writePacket, writeBody, writeInt32To, appendTo, TinyPBProtocol.packetSize,
    HEADER_SIZE, List.length_append, List.length_singleton, Codec.length_encode32]
  omega

/-- The id of a message that has none. -/
def defaultMsgId : Bytes := "default_msg_id".toUTF8.toList

def withMsgId (m : TinyPBProtocol) : TinyPBProtocol :=
  if m.msgId = [] then { m with msgId := defaultMsgId } else m

/-- The fields `encode` sets once the packet is written. -/
def written (crc : Bytes → UInt32) (m : TinyPBProtocol) (pkLen : Int32) : TinyPBProtocol :=
  { m with
    pkLen := pkLen
    msgIdLen := Int32.ofNat m.msgId.length
    methodNameLen := Int32.ofNat m.methodName.length
    errInfoLen := Int32.ofNat m.errInfo.length
    checkSum := (crc (writeBody m pkLen)).toInt32
    parseSuccess := true }

/-- The loop body of `encode`: whether it goes on, the message and the buffer after it. -/
def encodeMessage (crc : Bytes → UInt32) (msg : TinyPBProtocol) (out : TcpBuffer) :
    Bool × TinyPBProtocol × TcpBuffer :=
  let msg := withMsgId msg
  if msg.packetSize > kMaxPacketSize ∨ msg.packetSize > 0x7FFFFFFF then (false, msg, out)
  else if h : (out.ensureWritable msg.packetSize).1 = true then
    let pkLen := Int32.ofNat msg.packetSize
    let packet := writePacket crc msg pkLen
    have fits : packet.length ≤ (out.ensureWritable msg.packetSize).2.writeAble := by
      rw [length_writePacket]
      exact TcpBuffer.ensureWritable_writeAble h
    (true, written crc msg pkLen,
      ((out.ensureWritable msg.packetSize).2.poke packet fits).moveWriteIndex packet.length)
  else (false, msg, (out.ensureWritable msg.packetSize).2)

/-- `encode(messages, out_buffer)`: what it returns, the messages and the buffer after it.
    What is not TinyPB is skipped; the first message that cannot be written ends the loop. -/
def encode (crc : Bytes → UInt32) :
    List AbstractProtocol → TcpBuffer → Bool × List AbstractProtocol × TcpBuffer
  | [], out => (true, [], out)
  | .other :: ms, out =>
    ((encode crc ms out).1, .other :: (encode crc ms out).2.1, (encode crc ms out).2.2)
  | .tinyPB m :: ms, out =>
    let r := encodeMessage crc m out
    if r.1 then
      ((encode crc ms r.2.2).1, .tinyPB r.2.1 :: (encode crc ms r.2.2).2.1,
        (encode crc ms r.2.2).2.2)
    else (false, .tinyPB r.2.1 :: ms, r.2.2)

/-! ## Decoding -/

def checkRemaining (parseIndex pkEndIndex needBytes : Nat) : Bool :=
  !(decide (parseIndex > pkEndIndex) || decide (needBytes > pkEndIndex - parseIndex))

/-- `readLength`: the length field at `parseIndex` and the index behind it. An error is the
    reason the packet is rejected for. -/
def readLength (data : Bytes) (pkEndIndex parseIndex : Nat) (fieldName : String) :
    Except String (Int32 × Nat) :=
  if !checkRemaining parseIndex pkEndIndex 4 then .error ("missing " ++ fieldName ++ " length")
  else
    let value := readInt32 data parseIndex
    let parseIndex := parseIndex + 4
    if value < 0 then .error ("negative " ++ fieldName ++ " length")
    else if !checkRemaining parseIndex pkEndIndex value.toNatClampNeg then
      .error ("oversized " ++ fieldName ++ " length")
    else .ok (value, parseIndex)

/-- A string with its length in front: the length, the string and the index behind it. -/
def readString (data : Bytes) (pkEndIndex parseIndex : Nat) (fieldName : String) :
    Except String (Int32 × Bytes × Nat) := do
  let (len, parseIndex) ← readLength data pkEndIndex parseIndex fieldName
  return (len, slice data parseIndex len.toNatClampNeg, parseIndex + len.toNatClampNeg)

/-- The error code and the index behind it. -/
def readErrCode (data : Bytes) (pkEndIndex parseIndex : Nat) : Except String (Int32 × Nat) :=
  if !checkRemaining parseIndex pkEndIndex 4 then .error "missing error code"
  else .ok (readInt32 data parseIndex, parseIndex + 4)

/-- The rest of the packet: what is left in front of the checksum is the payload. -/
def readPayload (crc : Bytes → UInt32) (data : Bytes) (pkStartIndex pkEndIndex parseIndex : Nat) :
    Except String (Bytes × Int32) :=
  if parseIndex > pkEndIndex ∨ 4 > pkEndIndex - parseIndex then .error "missing checksum"
  else
    let checksumIndex := pkEndIndex - 4
    if parseIndex > checksumIndex then .error "invalid protobuf payload length"
    else
      let pbData := slice data parseIndex (checksumIndex - parseIndex)
      if !checkRemaining checksumIndex pkEndIndex 4 then .error "missing checksum"
      else
        let checkSum := readInt32 data checksumIndex
        let calculated := crc (slice data pkStartIndex (checksumIndex - pkStartIndex))
        if calculated ≠ checkSum.toUInt32 then .error "checksum mismatch"
        else .ok (pbData, checkSum)

/-- The fields of a packet whose start, length and end are right. -/
def parsePacket (crc : Bytes → UInt32) (data : Bytes) (pkStartIndex pkEndIndex : Nat)
    (pkLen : Int32) : Except String TinyPBProtocol := do
  let (msgIdLen, msgId, parseIndex) ← readString data pkEndIndex (pkStartIndex + 5) "msg_id"
  let (methodNameLen, methodName, parseIndex) ←
    readString data pkEndIndex parseIndex "method_name"
  let (errCode, parseIndex) ← readErrCode data pkEndIndex parseIndex
  let (errInfoLen, errInfo, parseIndex) ← readString data pkEndIndex parseIndex "err_info"
  let (pbData, checkSum) ← readPayload crc data pkStartIndex pkEndIndex parseIndex
  return { msgId, pkLen, msgIdLen, methodNameLen, methodName, errCode, errInfoLen, errInfo,
           pbData, checkSum, parseSuccess := true }

/-- What a pass of the loop does with the `n` bytes it consumes: return, go on, return with
    `fatal`, or deliver a message and go on. -/
inductive Pass where
  | done (n : Nat)
  | resync (n : Nat)
  | reject (n : Nat) (reason : String)
  | accept (n : Nat) (msg : TinyPBProtocol)
  deriving DecidableEq, Repr

/-- One pass of the loop of `decode` over the readable bytes, of which there are some. -/
def decodePass (crc : Bytes → UInt32) (data : Bytes) : Pass :=
  let readable := data.length
  let pkStartIndex := data.findIdx (· == PB_START)
  if pkStartIndex = readable then .done readable
  else
    let bytesFromStart := readable - pkStartIndex
    if bytesFromStart < 5 then .done pkStartIndex
    else
      let pkLen := readInt32 data (pkStartIndex + 1)
      if pkLen < Int32.ofNat HEADER_SIZE ∨ pkLen.toNatClampNeg > kMaxPacketSize then
        .resync (pkStartIndex + 1)
      else
        let packetSize := pkLen.toNatClampNeg
        if bytesFromStart < packetSize then .done pkStartIndex
        else
          let pkEndIndex := pkStartIndex + packetSize - 1
          if data.getD pkEndIndex 0 ≠ PB_END then .resync (pkStartIndex + 1)
          else
            match parsePacket crc data pkStartIndex pkEndIndex pkLen with
            | .error reason => .reject (pkEndIndex + 1) reason
            | .ok msg => .accept (pkEndIndex + 1) msg

/-- A pass that lets the loop go on consumes something, and no more than is readable. -/
theorem decodePass_bounds (crc : Bytes → UInt32) (data : Bytes) {n : Nat}
    (h : decodePass crc data = .resync n ∨ ∃ msg, decodePass crc data = .accept n msg) :
    0 < n ∧ n ≤ data.length := by
  have hfirst := @List.findIdx_le_length _ (· == PB_START) data
  unfold decodePass at h
  dsimp only at h
  split at h
  · simp at h
  split at h
  · simp at h
  split at h
  · simp at h
    omega
  split at h
  · simp at h
  split at h
  · simp at h
    omega
  split at h
  · simp at h
  · simp at h
    omega

structure DecodeResult where
  messages : List TinyPBProtocol := []
  fatal : Bool := false
  deriving DecidableEq, Repr

/-- The loop of `decode`; `messages` are the ones delivered so far. -/
def decodeLoop (crc : Bytes → UInt32) (buffer : TcpBuffer) (messages : List TinyPBProtocol) :
    DecodeResult × TcpBuffer :=
  if buffer.readAble = 0 then (⟨messages, false⟩, buffer)
  else
    match _hp : decodePass crc buffer.readable with
    | .done n => (⟨messages, false⟩, buffer.moveReadIndex n)
    | .resync n => decodeLoop crc (buffer.moveReadIndex n) messages
    | .reject n _ => (⟨messages, true⟩, buffer.moveReadIndex n)
    | .accept n msg => decodeLoop crc (buffer.moveReadIndex n) (messages ++ [msg])
termination_by buffer.readAble
decreasing_by
  all_goals
    have hpos : 0 < n := (decodePass_bounds crc buffer.readable (by simp [_hp])).1
    rw [← TcpBuffer.length_readable, TcpBuffer.moveReadIndex_readable, List.length_drop,
      TcpBuffer.length_readable]
    omega

/-- `decode(buffer)`: the result and the buffer after it. -/
def decode (crc : Bytes → UInt32) (buffer : TcpBuffer) : DecodeResult × TcpBuffer :=
  decodeLoop crc buffer []

end RocketRpc.Coder
