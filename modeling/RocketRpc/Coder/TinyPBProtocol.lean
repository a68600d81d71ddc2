import RocketRpc.Lib.Codec
import RocketRpc.Tcp.TcpBuffer

/-
  The TinyPB protocol (`rocket/net/coder/tinypb_protocol.h`) and the grammar of its frames.

  `TinyPBProtocol` is the record of the sources. The grammar is stated apart from the two
  functions that write and read it: `frame` is the text of a record, `WellFormed` says that
  its length fields, its checksum and its size are the ones the text has, and `Candidate`,
  `Malformed`, `Incomplete` and `Impossible` tell apart what can stand at a position of a
  stream. A checksum is any function of the bytes it covers.
-/

namespace RocketRpc.Coder

open RocketRpc.Tcp

def PB_START : UInt8 := 0x02

def PB_END : UInt8 := 0x03

/-- Start, six 32-bit words, end. -/
def HEADER_SIZE : Nat := 1 + 4 * 6 + 1

def kMaxPacketSize : Nat := 1024 * 1024

structure TinyPBProtocol where
  msgId : Bytes := []
  pkLen : Int32 := 0
  msgIdLen : Int32 := 0
  methodNameLen : Int32 := 0
  methodName : Bytes := []
  errCode : Int32 := 0
  errInfoLen : Int32 := 0
  errInfo : Bytes := []
  pbData : Bytes := []
  checkSum : Int32 := 0
  parseSuccess : Bool := false
  deriving DecidableEq, Repr

/-- A message as the connection handles it; `other` is any message that is not TinyPB, or
    no message at all. -/
inductive AbstractProtocol where
  | tinyPB (msg : TinyPBProtocol)
  | other
  deriving DecidableEq, Repr

namespace TinyPBProtocol

/-! ## The text of a frame -/

/-- The bytes in front of the checksum, which it covers. -/
def covered (m : TinyPBProtocol) : Bytes :=
  PB_START :: (Codec.int32.encode m.pkLen ++ (Codec.int32.encode m.msgIdLen ++ (m.msgId ++
    (Codec.int32.encode m.methodNameLen ++ (m.methodName ++ (Codec.int32.encode m.errCode ++
      (Codec.int32.encode m.errInfoLen ++ (m.errInfo ++ m.pbData))))))))

def frame (m : TinyPBProtocol) : Bytes :=
  m.covered ++ (Codec.int32.encode m.checkSum ++ [PB_END])

/-- The size of the packet: the fixed part and the four strings. -/
def packetSize (m : TinyPBProtocol) : Nat :=
  HEADER_SIZE + m.msgId.length + m.methodName.length + m.errInfo.length + m.pbData.length

theorem length_covered (m : TinyPBProtocol) : m.covered.length + 5 = m.packetSize := by
  simp only [covered, packetSize, HEADER_SIZE, List.length_cons, List.length_append,
    Codec.length_encode_int32]
  omega

@[simp] theorem length_frame (m : TinyPBProtocol) : m.frame.length = m.packetSize := by
  rw [← length_covered]
  simp only [frame, List.length_append, Codec.length_encode_int32, List.length_singleton]

/-- The fields that describe the text of the record are right, and it is small enough. -/
structure WellFormed (crc : Bytes → UInt32) (m : TinyPBProtocol) : Prop where
  size_le : m.packetSize ≤ kMaxPacketSize
  pkLen_eq : m.pkLen = Int32.ofNat m.packetSize
  msgIdLen_eq : m.msgIdLen = Int32.ofNat m.msgId.length
  methodNameLen_eq : m.methodNameLen = Int32.ofNat m.methodName.length
  errInfoLen_eq : m.errInfoLen = Int32.ofNat m.errInfo.length
  checkSum_eq : m.checkSum = (crc m.covered).toInt32
  parsed : m.parseSuccess = true

end TinyPBProtocol

/-- `f` is a frame, and `m` what it says. -/
def IsFrame (crc : Bytes → UInt32) (f : Bytes) (m : TinyPBProtocol) : Prop :=
  m.WellFormed crc ∧ f = m.frame

/-! ## What can stand at a position -/

/-- `readInt32`: the word at index `i`. -/
def readInt32 (data : Bytes) (i : Nat) : Int32 :=
  (Codec.word32 (data.getD i 0) (data.getD (i + 1) 0) (data.getD (i + 2) 0)
    (data.getD (i + 3) 0)).toInt32

/-- `n` is a size a packet can have, and the length word of `xs` says it. -/
structure ValidLength (xs : Bytes) (n : Nat) : Prop where
  known : 5 ≤ xs.length
  word : readInt32 xs 1 = Int32.ofNat n
  lower : HEADER_SIZE ≤ n
  upper : n ≤ kMaxPacketSize

/-- A packet of `n` bytes by its start, its length word and its end. -/
structure Candidate (xs : Bytes) (n : Nat) : Prop where
  start : xs.head? = some PB_START
  length : ValidLength xs n
  complete : n ≤ xs.length
  stop : xs[n - 1]? = some PB_END

/-- A candidate that is no frame. -/
def Malformed (crc : Bytes → UInt32) (xs : Bytes) (n : Nat) : Prop :=
  Candidate xs n ∧ ¬ ∃ m, IsFrame crc (xs.take n) m

/-- A start whose length word is not there yet, or announces more than is there. -/
def Incomplete (xs : Bytes) : Prop :=
  xs.head? = some PB_START ∧ (xs.length < 5 ∨ ∃ n, ValidLength xs n ∧ xs.length < n)

/-- No packet starts here, whatever follows: no start, a length no packet has, or another
    byte where the end belongs. -/
def Impossible (xs : Bytes) : Prop :=
  xs ≠ [] ∧ (xs.head? ≠ some PB_START ∨ (5 ≤ xs.length ∧ ¬ ∃ n, ValidLength xs n) ∨
    ∃ n, ValidLength xs n ∧ n ≤ xs.length ∧ xs[n - 1]? ≠ some PB_END)

end RocketRpc.Coder
