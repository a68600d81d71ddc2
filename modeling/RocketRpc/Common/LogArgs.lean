import RocketRpc.Lib.LittleEndian
import RocketRpc.Lib.Storage
import RocketRpc.Tcp.TcpBuffer
import Mathlib.Algebra.GroupWithZero.Nat

/-
  The arguments of a log entry (`LogEntry::setArgs` and `LogEntry::runFormat` of
  `rocket/common/log.h`).

  `setArgs` measures the arguments, gets a block of that size, and writes into it the number of
  arguments, their tags, from a multiple of 8 on their values, and behind them the bytes of the
  strings, each at the offset that its value has. `runFormat` decodes the block and calls fmt.
  Every access of the block is checked here, so a `none` is one that leaves the block.
-/

namespace RocketRpc.Common

open RocketRpc.Tcp Storage LittleEndian

def kFmtStorageSize : Nat := 80

/-- A C string, without the NUL that ends it. -/
structure CString where
  text : Bytes
  noNul : 0 ∉ text
  deriving DecidableEq

def CString.empty : CString := ⟨[], List.not_mem_nil⟩

/-- The size of a `fmt::string_view` is a `size_t`. -/
structure StringView where
  text : Bytes
  size : text.length < 2 ^ 64
  deriving DecidableEq

/-- A `fmt::basic_format_arg`. The numbers with a fraction are their bits, and a pointer its
    address; a null C string is `none`. -/
inductive FormatArg where
  | int (v : Int32)
  | uint (v : UInt32)
  | longLong (v : Int64)
  | ulongLong (v : UInt64)
  | bool (v : Bool)
  | char (v : UInt8)
  | float (v : UInt32)
  | double (v : UInt64)
  | cstring (v : Option CString)
  | stringView (v : StringView)
  | pointer (v : UInt64)
  deriving DecidableEq

inductive ArgType where
  | int
  | uint
  | int64
  | uint64
  | double
  | bool
  | cstring
  | stringView
  | ptr
  deriving DecidableEq, Repr

def ArgType.toByte : ArgType → UInt8
  | .int => 0
  | .uint => 1
  | .int64 => 2
  | .uint64 => 3
  | .double => 4
  | .bool => 5
  | .cstring => 6
  | .stringView => 7
  | .ptr => 8

/-- Other values are decoded like `Ptr`. -/
def ArgType.ofByte (b : UInt8) : ArgType :=
  match b.toNat with
  | 0 => .int
  | 1 => .uint
  | 2 => .int64
  | 3 => .uint64
  | 4 => .double
  | 5 => .bool
  | 6 => .cstring
  | 7 => .stringView
  | _ => .ptr

/-! ## Pass 1 -/

namespace FormatArg

def tag : FormatArg → ArgType
  | .int _ => .int
  | .uint _ => .uint
  | .longLong _ => .int64
  | .ulongLong _ => .uint64
  | .double _ => .double
  | .bool _ => .bool
  | .cstring _ => .cstring
  | .stringView _ => .stringView
  -- what is left takes the last branch
  | .char _ | .float _ | .pointer _ => .ptr

/-- What the argument adds to the size of the block. -/
def size : FormatArg → Nat
  | .int _ | .uint _ => 4
  | .longLong _ | .ulongLong _ | .double _ => 8
  | .bool _ => 1
  | .cstring none => 2
  | .cstring (some s) => 2 + (s.text.length + 1)
  | .stringView s => 2 + 8 + s.text.length
  | .char _ => 1
  | .float _ => 4
  | .pointer _ => 8

end FormatArg

/-- `alignPtr` in a block that is aligned itself. -/
def align8 (p : Nat) : Nat := (p + 7) / 8 * 8

def measure (args : List FormatArg) : Nat :=
  align8 (1 + args.length) + (args.map FormatArg.size).sum

/-! ## Pass 2 -/

structure EncodeState where
  dst : Bytes
  p : Nat
  /-- Where the offset of each string goes, and the bytes of the string. -/
  strings : List (Nat × Bytes) := []

def EncodeState.memcpy (s : EncodeState) (bs : Bytes) : Option EncodeState :=
  (save s.dst s.p bs).map fun dst => { s with dst, p := s.p + bs.length }

def encodeOneArg (s : EncodeState) : FormatArg → Option EncodeState
  | .int v => s.memcpy (toBytes 4 v.toUInt32.toNat)
  | .uint v => s.memcpy (toBytes 4 v.toNat)
  | .longLong v => s.memcpy (toBytes 8 v.toUInt64.toNat)
  | .ulongLong v => s.memcpy (toBytes 8 v.toNat)
  | .double v => s.memcpy (toBytes 8 v.toNat)
  | .bool v => s.memcpy [if v then 1 else 0]
  | .cstring none => some { s with p := s.p + 2 }
  | .cstring (some v) =>
    some { s with p := s.p + 2, strings := s.strings ++ [(s.p, v.text ++ [0])] }
  | .stringView v =>
    { s with p := s.p + 2, strings := s.strings ++ [(s.p, v.text)] }.memcpy
      (toBytes 8 v.text.length)
  | .pointer v => s.memcpy (toBytes 8 v.toNat)
  | .char v => s.memcpy (toBytes 1 v.toNat)
  | .float v => s.memcpy (toBytes 4 v.toNat)

def encodeArgs (s : EncodeState) : List FormatArg → Option EncodeState
  | [] => some s
  | arg :: args => (encodeOneArg s arg).bind fun s => encodeArgs s args

/-- The loop over the strings: each offset, and the bytes at `p`. -/
def copyStrings (dst : Bytes) (p : Nat) : List (Nat × Bytes) → Option Bytes
  | [] => some dst
  | (off, data) :: strings =>
    (save dst off (toBytes 2 (UInt16.ofNat p).toNat)).bind fun dst =>
      (save dst p data).bind fun dst => copyStrings dst (p + data.length) strings

/-- The part of a `LogEntry` that `setArgs` fills. -/
structure LogArgs where
  numArgs : UInt8
  heapAllocated : Bool := false
  /-- What `fmt_ptr` points to, up to its end. -/
  fmtPtr : Bytes
  fmtLen : UInt16
  /-- The block: the start of `fmt_data`, or what `arg_data` points to. -/
  block : Bytes := []
  deriving DecidableEq

/-- `setArgs`; `junk` is what the memory of the block holds before. -/
def setArgs (junk : Nat → UInt8) (fmt : Bytes) (args : List FormatArg) : Option LogArgs :=
  let entry : LogArgs :=
    { numArgs := UInt8.ofNat args.length, fmtPtr := fmt, fmtLen := UInt16.ofNat fmt.length }
  if args = [] then some entry
  else
    let total := measure args
    let dst := (List.range total).map junk
    (save dst 0 [UInt8.ofNat args.length]).bind fun dst =>
      (save dst 1 (args.map (·.tag.toByte))).bind fun dst =>
        (encodeArgs { dst, p := align8 (1 + args.length) } args).bind fun s =>
          (copyStrings s.dst s.p s.strings).map fun block =>
            { entry with heapAllocated := decide (kFmtStorageSize < total), block }

/-! ## Decoding -/

def loadWord (block : Bytes) (p n : Nat) : Option Nat := (load block p n).map ofBytes

/-- The C string at `off`, whose NUL is in the block. -/
def cstringAt (block : Bytes) (off : Nat) : Option CString :=
  let text := (block.drop off).takeWhile (· ≠ 0)
  if off + text.length < block.length then
    some ⟨text, fun h => by simpa using List.all_eq_true.mp List.all_takeWhile 0 h⟩
  else none

def stringViewAt (block : Bytes) (off sz : Nat) : Option StringView :=
  (load block off sz).bind fun text => if h : text.length < 2 ^ 64 then some ⟨text, h⟩ else none

/-- The decoded argument, with the strings that it points to, and the place behind it. -/
def decodeOneArg (block : Bytes) (p : Nat) : ArgType → Option (FormatArg × Nat)
  | .int => (loadWord block p 4).map fun v => (.int (UInt32.ofNat v).toInt32, p + 4)
  | .uint => (loadWord block p 4).map fun v => (.uint (UInt32.ofNat v), p + 4)
  | .int64 => (loadWord block p 8).map fun v => (.longLong (UInt64.ofNat v).toInt64, p + 8)
  | .uint64 => (loadWord block p 8).map fun v => (.ulongLong (UInt64.ofNat v), p + 8)
  | .double => (loadWord block p 8).map fun v => (.double (UInt64.ofNat v), p + 8)
  | .bool => (loadWord block p 1).map fun v => (.bool (v ≠ 0), p + 1)
  | .cstring =>
    (loadWord block p 2).bind fun off =>
      if off = 0 then some (.cstring (some ⟨[], List.not_mem_nil⟩), p + 2)
      else (cstringAt block off).map fun s => (.cstring (some s), p + 2)
  | .stringView =>
    (loadWord block p 2).bind fun off =>
      (loadWord block (p + 2) 8).bind fun sz =>
        (stringViewAt block off sz).map fun s => (.stringView s, p + 2 + 8)
  | .ptr => (loadWord block p 8).map fun v => (.pointer (UInt64.ofNat v), p + 8)

def decodeArgs (block : Bytes) : Nat → List ArgType → Option (List FormatArg)
  | _, [] => some []
  | p, tag :: tags =>
    (decodeOneArg block p tag).bind fun (arg, p) => (decodeArgs block p tags).map (arg :: ·)

namespace LogArgs

/-- The arguments that `runFormat` decodes. -/
def decode (e : LogArgs) : Option (List FormatArg) :=
  if e.numArgs = 0 then some []
  else
    (loadWord e.block 0 1).bind fun n =>
      (load e.block 1 n).bind fun tags =>
        decodeArgs e.block (align8 (1 + n)) (tags.map ArgType.ofByte)

/-- `runFormat`; `vformat` is `fmt::vformat`. -/
def runFormat (vformat : Bytes → List FormatArg → Bytes) (out : Bytes) (e : LogArgs) :
    Option Bytes :=
  let fmt := e.fmtPtr.take e.fmtLen.toNat
  if e.numArgs = 0 then some (out ++ fmt)
  else e.decode.map fun decoded => out ++ vformat fmt decoded

end LogArgs

end RocketRpc.Common
