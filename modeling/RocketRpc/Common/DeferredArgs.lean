import RocketRpc.Common.LogArgs

/-
  What becomes of deferred log arguments.

  `layout` says what the block holds, string by string, and `setArgs_eq` that `setArgs` leaves
  just that, without a write outside. `decode_eq_iff` compares what `runFormat` decodes with the
  arguments. They are the same exactly if none is a `char` or a `float`, which have the tag of a
  pointer, and if the strings are found at their offsets, of which the block has 16 bits
  (`survives_iff`).
-/

namespace RocketRpc.Common

open RocketRpc.Tcp Storage LittleEndian

/-! ## The block -/

namespace FormatArg

/-- The value of the argument, whose string is at the offset with the bytes `off`. -/
def value (off : Bytes) : FormatArg → Bytes
  | .int v => toBytes 4 v.toUInt32.toNat
  | .uint v => toBytes 4 v.toNat
  | .longLong v => toBytes 8 v.toUInt64.toNat
  | .ulongLong v => toBytes 8 v.toNat
  | .double v => toBytes 8 v.toNat
  | .bool v => [if v then 1 else 0]
  | .cstring _ => off
  | .stringView v => off ++ toBytes 8 v.text.length
  | .pointer v => toBytes 8 v.toNat
  | .char v => toBytes 1 v.toNat
  | .float v => toBytes 4 v.toNat

def valueSize : FormatArg → Nat
  | .int _ | .uint _ | .float _ => 4
  | .longLong _ | .ulongLong _ | .double _ | .pointer _ => 8
  | .bool _ | .char _ => 1
  | .cstring _ => 2
  | .stringView _ => 2 + 8

/-- The bytes of the string of the argument. -/
def data : FormatArg → Bytes
  | .cstring (some v) => v.text ++ [0]
  | .stringView v => v.text
  | _ => []

/-- What pass 2 notes for an argument whose value is at `p`. -/
def strings (p : Nat) : FormatArg → List (Nat × Bytes)
  | .cstring (some v) => [(p, v.text ++ [0])]
  | .stringView v => [(p, v.text)]
  | _ => []

variable {x y : Bytes}

theorem length_value (hx : x.length = 2) (a : FormatArg) : (a.value x).length = a.valueSize := by
  cases a <;> simp [value, valueSize, hx]

theorem size_eq (a : FormatArg) : a.size = a.valueSize + a.data.length := by
  match a with
  | .cstring none | .cstring (some _) | .stringView _ => simp [size, valueSize, data]
  | .int _ | .uint _ | .longLong _ | .ulongLong _ | .bool _ | .char _ | .float _ | .double _
  | .pointer _ => rfl

end FormatArg

/-- The offset of a string in its value. -/
def offsetBytes (pos : Nat) : Bytes := toBytes 2 (UInt16.ofNat pos).toNat

theorem length_offsetBytes (pos : Nat) : (offsetBytes pos).length = 2 := length_toBytes 2 _

/-- The values, where the bytes of the first string are at `pos`. -/
def values (pos : Nat) : List FormatArg → Bytes
  | [] => []
  | a :: args => a.value (offsetBytes pos) ++ values (pos + a.data.length) args

def valuesSize (args : List FormatArg) : Nat := (args.map FormatArg.valueSize).sum

/-- The bytes of the strings, one behind the other. -/
def area (args : List FormatArg) : Bytes := args.flatMap FormatArg.data

/-- The number of arguments, their tags, and what is left of the memory up to the values. -/
def header (junk : Nat → UInt8) (args : List FormatArg) : Bytes :=
  UInt8.ofNat args.length :: args.map (·.tag.toByte) ++
    ((List.range (align8 (1 + args.length))).drop (1 + args.length)).map junk

/-- Where the bytes of the first string are. -/
def areaStart (args : List FormatArg) : Nat := align8 (1 + args.length) + valuesSize args

def layout (junk : Nat → UInt8) (args : List FormatArg) : Bytes :=
  header junk args ++ values (areaStart args) args ++ area args

/-! ## Writing it -/

/-- The claim is about C strings that are not null. -/
def FormatArg.NonNull (a : FormatArg) : Prop := a ≠ .cstring none

/-- The values before the offsets of the strings are known. -/
inductive Raw : List FormatArg → Bytes → Prop where
  | nil : Raw [] []
  | cons {a : FormatArg} {args : List FormatArg} {x r : Bytes} (hx : x.length = 2)
      (hr : Raw args r) : Raw (a :: args) (a.value x ++ r)

theorem Raw.length {args : List FormatArg} {r : Bytes} (h : Raw args r) :
    r.length = valuesSize args := by
  induction h with
  | nil => rfl
  | cons hx _ ih => rw [List.length_append, FormatArg.length_value hx, ih]; rfl

/-- What pass 2 notes for the arguments whose values begin at `p`. -/
def stringsAt (p : Nat) : List FormatArg → List (Nat × Bytes)
  | [] => []
  | a :: args => a.strings p ++ stringsAt (p + a.valueSize) args

variable {s : EncodeState} {pre mem : Bytes} {args : List FormatArg}

theorem memcpy_eq {bs : Bytes} (pre mem : Bytes) (hdst : s.dst = pre ++ mem) (hp : s.p = pre.length)
    (hroom : bs.length ≤ mem.length) :
    s.memcpy bs =
      some ⟨pre ++ (bs ++ mem.drop bs.length), s.p + bs.length, s.strings ++ []⟩ := by
  rw [EncodeState.memcpy, hdst, save_append hp hroom, List.append_nil]
  rfl

/-- An argument's value behind what is written; the offset of a string is left open. -/
theorem encodeOneArg_eq (a : FormatArg) (hdst : s.dst = pre ++ mem) (hp : s.p = pre.length)
    (hroom : a.valueSize ≤ mem.length) :
    ∃ x, x.length = 2 ∧ encodeOneArg s a =
      some ⟨pre ++ (a.value x ++ mem.drop a.valueSize), s.p + a.valueSize,
        s.strings ++ a.strings s.p⟩ := by
  match a with
  | .cstring v =>
    refine ⟨mem.take 2, List.length_take_of_le hroom, ?_⟩
    cases v <;> simp [encodeOneArg, FormatArg.value, FormatArg.valueSize, FormatArg.strings, hdst]
  | .stringView v =>
    have htwo : (mem.take 2).length = 2 := by
      rw [List.length_take_of_le]
      exact Nat.le_trans (show 2 ≤ 2 + 8 by decide) hroom
    refine ⟨mem.take 2, htwo, ?_⟩
    rw [encodeOneArg, memcpy_eq (pre ++ mem.take 2) (mem.drop 2)]
    · simp [FormatArg.value, FormatArg.valueSize, FormatArg.strings]
    · simp [hdst]
    · simp [hp, htwo]
    · simpa [FormatArg.valueSize] using Nat.le_sub_of_add_le' hroom
  | .int _ | .uint _ | .longLong _ | .ulongLong _ | .bool _ | .char _ | .float _ | .double _
  | .pointer _ =>
    refine ⟨[0, 0], rfl, ?_⟩
    rw [encodeOneArg, memcpy_eq pre mem hdst hp (by simpa [FormatArg.valueSize] using hroom)]
    simp [FormatArg.value, FormatArg.valueSize, FormatArg.strings]

theorem encodeArgs_eq (hdst : s.dst = pre ++ mem) (hp : s.p = pre.length)
    (hroom : valuesSize args ≤ mem.length) :
    ∃ r, Raw args r ∧ encodeArgs s args =
      some ⟨pre ++ (r ++ mem.drop r.length), s.p + r.length,
        s.strings ++ stringsAt s.p args⟩ := by
  induction args generalizing s pre mem with
  | nil => exact ⟨[], .nil, by simp [encodeArgs, stringsAt, ← hdst]⟩
  | cons a args ih =>
    have hsize : valuesSize (a :: args) = a.valueSize + valuesSize args := rfl
    obtain ⟨x, hx, heq⟩ := encodeOneArg_eq a hdst hp (by omega)
    obtain ⟨r, hr, heq'⟩ := @ih ⟨pre ++ (a.value x ++ mem.drop a.valueSize), s.p + a.valueSize,
      s.strings ++ a.strings s.p⟩ (pre ++ a.value x) (mem.drop a.valueSize) (by simp)
      (by simp [hp, FormatArg.length_value hx]) (by rw [List.length_drop]; omega)
    refine ⟨a.value x ++ r, .cons hx hr, ?_⟩
    rw [encodeArgs, heq, Option.bind_some, heq']
    simp [stringsAt, FormatArg.length_value hx, Nat.add_assoc]

/-- Only the value of an argument with a string depends on the offset, and begins with it. -/
theorem string_cases {a : FormatArg} (ha : a.NonNull) :
    (∃ rest, (∀ x, a.value x = x ++ rest) ∧ ∀ p, a.strings p = [(p, a.data)]) ∨
      (a.data = [] ∧ (∀ x y, a.value x = a.value y) ∧ ∀ p, a.strings p = []) := by
  match a with
  | .cstring none => exact absurd rfl ha
  | .cstring (some v) => exact Or.inl ⟨[], by simp [FormatArg.value], fun _ => rfl⟩
  | .stringView v => exact Or.inl ⟨toBytes 8 v.text.length, fun _ => rfl, fun _ => rfl⟩
  | .int _ | .uint _ | .longLong _ | .ulongLong _ | .bool _ | .char _ | .float _ | .double _
  | .pointer _ => exact Or.inr ⟨rfl, fun _ _ => rfl, fun _ => rfl⟩

/-- The loop over the strings fills in the offsets. -/
theorem copyStrings_eq {r done : Bytes} (hnn : ∀ a ∈ args, a.NonNull) (hr : Raw args r)
    {pos : Nat} (hpos : pos = (pre ++ (r ++ done)).length)
    (hroom : (area args).length ≤ mem.length) :
    copyStrings (pre ++ (r ++ done) ++ mem) pos (stringsAt pre.length args) =
      some (pre ++ (values pos args ++ done) ++ (area args ++ mem.drop (area args).length)) := by
  induction hr generalizing pre done mem pos with
  | nil => simp [copyStrings, stringsAt, values, area]
  | @cons a args x r hx hr ih =>
    have hnn' := fun b hb => hnn b (List.mem_cons_of_mem a hb)
    have harea : area (a :: args) = a.data ++ area args := rfl
    have hvalueSize := FormatArg.length_value (length_offsetBytes pos) a
    have hlen : pos = pre.length + a.valueSize + r.length + done.length := by
      rw [hpos]
      simp only [List.length_append, FormatArg.length_value hx]
      omega
    rw [harea, List.length_append] at hroom
    rw [stringsAt, values, harea]
    rcases string_cases (hnn a List.mem_cons_self) with ⟨rest, hvalue, hstrings⟩ |
      ⟨hdata, hvalue, hstrings⟩
    · -- the offset, and then the bytes of the string
      have hpatch : save (pre ++ (a.value x ++ r ++ done) ++ mem) pre.length (offsetBytes pos) =
          some (pre ++ (a.value (offsetBytes pos) ++ r ++ done) ++ mem) := by
        have hsave := @save_append _ pre (x ++ (rest ++ r ++ done ++ mem)) (offsetBytes pos) _ rfl
          (by rw [List.length_append, length_offsetBytes]; omega)
        rw [length_offsetBytes, List.drop_left' hx] at hsave
        simpa [hvalue] using hsave
      have hcopy := @save_append _ (pre ++ (a.value (offsetBytes pos) ++ r ++ done)) mem a.data pos
        (by simp only [List.length_append]; omega) (by omega)
      have hrest := @ih (pre ++ a.value (offsetBytes pos)) (mem.drop a.data.length)
        (done ++ a.data) hnn' (pos + a.data.length)
        (by simp only [List.length_append]; omega) (by rw [List.length_drop]; omega)
      rw [hstrings, List.singleton_append, copyStrings]
      rw [show toBytes 2 (UInt16.ofNat pos).toNat = offsetBytes pos from rfl, hpatch,
        Option.bind_some, hcopy, Option.bind_some]
      rw [List.length_append, hvalueSize] at hrest
      simpa using hrest
    · have hrest := @ih (pre ++ a.value (offsetBytes pos)) mem done hnn' pos
        (by simp only [List.length_append]; omega) (by omega)
      rw [List.length_append, hvalueSize] at hrest
      rw [hstrings, hdata, hvalue x (offsetBytes pos)]
      simpa using hrest

theorem align8_le (n : Nat) : n ≤ align8 n := by
  unfold align8
  omega

theorem measure_eq (args : List FormatArg) :
    measure args = areaStart args + (area args).length := by
  have hsum : (args.map FormatArg.size).sum = valuesSize args + (area args).length := by
    induction args with
    | nil => rfl
    | cons a args ih =>
      simp only [valuesSize, area, List.map_cons, List.sum_cons, List.flatMap_cons,
        List.length_append] at ih ⊢
      rw [ih, FormatArg.size_eq]
      omega
  rw [measure, hsum, areaStart]
  omega

/-- The number of arguments and the tags, in the memory of a block. -/
theorem header_eq (junk : Nat → UInt8) (args : List FormatArg) {n : Nat}
    (hn : align8 (1 + args.length) ≤ n) :
    ∃ mem, (save ((List.range n).map junk) 0 [UInt8.ofNat args.length]).bind (fun dst =>
        save dst 1 (args.map (·.tag.toByte))) = some (header junk args ++ mem) ∧
      mem.length = n - align8 (1 + args.length) := by
  have halign := align8_le (1 + args.length)
  have hcount := @save_append _ [] ((List.range n).map junk) [UInt8.ofNat args.length] 0 rfl
    (by simp; omega)
  have htags := @save_append _ [UInt8.ofNat args.length] (((List.range n).map junk).drop 1)
    (args.map (·.tag.toByte)) 1 rfl (by simp; omega)
  have hsplit : List.range n = List.range (align8 (1 + args.length)) ++
      (List.range n).drop (align8 (1 + args.length)) := by
    rw [← Nat.min_eq_left hn, ← List.take_range, Nat.min_eq_left hn, List.take_append_drop]
  refine ⟨((List.range n).drop (align8 (1 + args.length))).map junk, ?_, by simp⟩
  rw [List.nil_append, List.nil_append, List.length_singleton] at hcount
  rw [hcount, Option.bind_some, htags, List.length_map, List.drop_drop, ← List.map_drop, hsplit,
    List.drop_append_of_le_length (by simpa using halign)]
  simp [header]

theorem length_header (junk : Nat → UInt8) (args : List FormatArg) :
    (header junk args).length = align8 (1 + args.length) := by
  have halign := align8_le (1 + args.length)
  simp only [header, List.length_append, List.length_cons, List.length_map, List.length_drop,
    List.length_range]
  omega

theorem length_values (pos : Nat) (args : List FormatArg) :
    (values pos args).length = valuesSize args := by
  induction args generalizing pos with
  | nil => rfl
  | cons a args ih =>
    rw [values, List.length_append, FormatArg.length_value (length_offsetBytes pos), ih]
    rfl

/-- `setArgs` writes the block, and nothing outside. -/
theorem setArgs_eq (junk : Nat → UInt8) (fmt : Bytes) (hargs : args ≠ [])
    (hnn : ∀ a ∈ args, a.NonNull) :
    setArgs junk fmt args = some {
      numArgs := UInt8.ofNat args.length
      heapAllocated := decide (kFmtStorageSize < measure args)
      fmtPtr := fmt
      fmtLen := UInt16.ofNat fmt.length
      block := layout junk args } := by
  have hmeasure := measure_eq args
  obtain ⟨mem, hheader, hmem⟩ := header_eq junk args
    (show align8 (1 + args.length) ≤ measure args from Nat.le_add_right _ _)
  have hmem : mem.length = valuesSize args + (area args).length := by
    rw [hmem, hmeasure, areaStart]
    omega
  obtain ⟨r, hr, hencode⟩ := @encodeArgs_eq ⟨header junk args ++ mem, align8 (1 + args.length), []⟩
    (header junk args) mem args rfl (length_header junk args).symm (by omega)
  have hrlen := hr.length
  have hcopy := @copyStrings_eq (header junk args) (mem.drop r.length) args r [] hnn hr
    (areaStart args) (by simp [areaStart, length_header, hrlen]) (by rw [List.length_drop]; omega)
  have hall : (mem.drop r.length).drop (area args).length = [] := by
    rw [List.drop_drop]
    exact List.drop_eq_nil_of_le (by omega)
  rw [setArgs, if_neg hargs]
  dsimp only
  rw [← Option.bind_assoc, hheader, Option.bind_some, hencode, Option.bind_some]
  dsimp only
  rw [hall] at hcopy
  simp only [List.append_nil, List.append_assoc, length_header, hrlen] at hcopy
  rw [List.nil_append, hrlen, ← areaStart, hcopy, layout, List.append_assoc]
  rfl

/-! ## Reading it -/

/-- The argument that is read where the offset of a string is `off`. -/
def FormatArg.readBack (block : Bytes) (off : Nat) : FormatArg → Option FormatArg
  | .cstring _ =>
    if off = 0 then some (.cstring (some .empty))
    else (cstringAt block off).map fun s => .cstring (some s)
  | .stringView v => (stringViewAt block off v.text.length).map .stringView
  | a => some a

/-- The type of the argument has a tag of its own. -/
def FormatArg.hasTag : FormatArg → Bool
  | .char _ | .float _ => false
  | _ => true

theorem loadWord_eq {rest : Bytes} {p n v : Nat} (hp : p = pre.length) (hv : v < 256 ^ n) :
    loadWord (pre ++ (toBytes n v ++ rest)) p n = some v := by
  rw [loadWord, load_append hp (length_toBytes n v).symm, Option.map_some, ofBytes_toBytes hv]

theorem decodeOneArg_eq {a : FormatArg} {pos : Nat} {rest block : Bytes} (ha : a.hasTag = true)
    (hblock : block = pre ++ (a.value (offsetBytes pos) ++ rest)) :
    decodeOneArg block pre.length a.tag =
      (a.readBack block (pos % 2 ^ 16)).map (·, pre.length + a.valueSize) := by
  have hoff : (UInt16.ofNat pos).toNat = pos % 2 ^ 16 := UInt16.toNat_ofNat'
  match a with
  | .int v =>
    have hv := v.toUInt32.toNat_lt
    rw [hblock, FormatArg.tag, decodeOneArg, FormatArg.value, loadWord_eq rfl hv, Option.map_some,
      UInt32.ofNat_toNat, Int32.toInt32_toUInt32]
    rfl
  | .uint v =>
    rw [hblock, FormatArg.tag, decodeOneArg, FormatArg.value, loadWord_eq rfl v.toNat_lt]
    simp [FormatArg.readBack, FormatArg.valueSize]
  | .longLong v =>
    have hv := v.toUInt64.toNat_lt
    rw [hblock, FormatArg.tag, decodeOneArg, FormatArg.value, loadWord_eq rfl hv, Option.map_some,
      UInt64.ofNat_toNat, Int64.toInt64_toUInt64]
    rfl
  | .ulongLong v =>
    rw [hblock, FormatArg.tag, decodeOneArg, FormatArg.value, loadWord_eq rfl v.toNat_lt]
    simp [FormatArg.readBack, FormatArg.valueSize]
  | .double v =>
    rw [hblock, FormatArg.tag, decodeOneArg, FormatArg.value, loadWord_eq rfl v.toNat_lt]
    simp [FormatArg.readBack, FormatArg.valueSize]
  | .pointer v =>
    rw [hblock, FormatArg.tag, decodeOneArg, FormatArg.value, loadWord_eq rfl v.toNat_lt]
    simp [FormatArg.readBack, FormatArg.valueSize]
  | .bool v =>
    have hbyte : [if v then (1 : UInt8) else 0] = toBytes 1 (if v then 1 else 0) := by
      cases v <;> rfl
    rw [hblock, FormatArg.tag, decodeOneArg, FormatArg.value, hbyte,
      loadWord_eq rfl (by cases v <;> decide)]
    cases v <;> rfl
  | .cstring v =>
    have hword : loadWord block pre.length 2 = some (pos % 2 ^ 16) := by
      rw [hblock, FormatArg.value, offsetBytes, loadWord_eq rfl (UInt16.toNat_lt _), hoff]
    rw [FormatArg.tag, decodeOneArg, hword, Option.bind_some, FormatArg.readBack]
    split
    · rfl
    · rw [Option.map_map]
      rfl
  | .stringView v =>
    have hword : loadWord block pre.length 2 = some (pos % 2 ^ 16) := by
      rw [hblock, FormatArg.value, List.append_assoc, offsetBytes,
        loadWord_eq rfl (UInt16.toNat_lt _), hoff]
    have hsize : loadWord block (pre.length + 2) 8 = some v.text.length := by
      rw [hblock, FormatArg.value, List.append_assoc, ← List.append_assoc,
        loadWord_eq (by rw [List.length_append, length_offsetBytes]) v.size]
    rw [FormatArg.tag, decodeOneArg, hword, Option.bind_some, hsize, Option.bind_some,
      FormatArg.readBack, Option.map_map]
    rfl

/-- What is decoded is of a type with a tag of its own. -/
theorem hasTag_of_decodeOneArg {block : Bytes} {p p' : Nat} {tag : ArgType} {a : FormatArg}
    (h : decodeOneArg block p tag = some (a, p')) : a.hasTag = true := by
  cases tag with
  | cstring =>
    obtain ⟨off, -, h⟩ := Option.bind_eq_some_iff.mp h
    split at h
    · obtain ⟨rfl, -⟩ := Prod.mk.inj (Option.some.inj h)
      rfl
    · obtain ⟨s, -, h⟩ := Option.map_eq_some_iff.mp h
      obtain ⟨rfl, -⟩ := Prod.mk.inj h
      rfl
  | stringView =>
    obtain ⟨off, -, h⟩ := Option.bind_eq_some_iff.mp h
    obtain ⟨sz, -, h⟩ := Option.bind_eq_some_iff.mp h
    obtain ⟨s, -, h⟩ := Option.map_eq_some_iff.mp h
    obtain ⟨rfl, -⟩ := Prod.mk.inj h
    rfl
  | int | uint | int64 | uint64 | double | bool | ptr =>
    obtain ⟨v, -, h⟩ := Option.map_eq_some_iff.mp h
    obtain ⟨rfl, -⟩ := Prod.mk.inj h
    rfl

theorem hasTag_of_decodeArgs {block : Bytes} {p : Nat} {tags : List ArgType}
    (h : decodeArgs block p tags = some args) : ∀ a ∈ args, a.hasTag = true := by
  induction tags generalizing p args with
  | nil =>
    obtain rfl := Option.some.inj h
    exact nofun
  | cons tag tags ih =>
    obtain ⟨⟨a, p'⟩, hone, h⟩ := Option.bind_eq_some_iff.mp h
    obtain ⟨rest, hrest, rfl⟩ := Option.map_eq_some_iff.mp h
    intro b hb
    rcases List.mem_cons.mp hb with rfl | hb
    · exact hasTag_of_decodeOneArg hone
    · exact ih hrest b hb

/-- The string of each argument is found: its bytes, from `pos` on, begin where an offset of 16
    bits reaches, or what is there by chance is the same. -/
def Found (block : Bytes) : Nat → List FormatArg → Prop
  | _, [] => True
  | pos, a :: args =>
    (pos < 2 ^ 16 ∨ a.readBack block (pos % 2 ^ 16) = some a) ∧
      Found block (pos + a.data.length) args

theorem cstringAt_eq (v : CString) (rest : Bytes) :
    cstringAt (pre ++ (v.text ++ [0] ++ rest)) pre.length = some v := by
  have htext : ((pre ++ (v.text ++ [0] ++ rest)).drop pre.length).takeWhile (· ≠ 0) = v.text := by
    rw [List.drop_left' rfl, List.append_assoc, List.takeWhile_append_of_pos]
    · simp
    · intro b hb
      refine decide_eq_true ?_
      rintro rfl
      exact v.noNul hb
  unfold cstringAt
  simp only [htext]
  rw [if_pos (by simp only [List.length_append, List.length_singleton]; omega)]

/-- The bytes of a string are read where they are. -/
theorem readBack_eq {a : FormatArg} (hnn : a.NonNull) (rest : Bytes) (hpos : 0 < pre.length) :
    a.readBack (pre ++ (a.data ++ rest)) pre.length = some a := by
  match a with
  | .cstring none => exact absurd rfl hnn
  | .cstring (some v) =>
    rw [FormatArg.readBack, if_neg (Nat.ne_of_gt hpos), FormatArg.data, cstringAt_eq]
    rfl
  | .stringView v =>
    rw [FormatArg.readBack, FormatArg.data, stringViewAt, load_append rfl rfl, Option.bind_some,
      dif_pos v.size]
    rfl
  | .int _ | .uint _ | .longLong _ | .ulongLong _ | .bool _ | .char _ | .float _ | .double _
  | .pointer _ => rfl

theorem decodeArgs_eq_iff {pos : Nat} {rest front rest' block : Bytes}
    (ha : ∀ a ∈ args, a.hasTag = true) (hnn : ∀ a ∈ args, a.NonNull)
    (hvalues : block = pre ++ (values pos args ++ rest))
    (harea : block = front ++ (area args ++ rest')) (hpos : pos = front.length) (h0 : 0 < pos) :
    decodeArgs block pre.length (args.map FormatArg.tag) = some args ↔ Found block pos args := by
  induction args generalizing pre pos front with
  | nil => exact iff_of_true rfl trivial
  | cons a args ih =>
    rw [values, List.append_assoc] at hvalues
    rw [show area (a :: args) = a.data ++ area args from rfl, List.append_assoc] at harea
    have hone := decodeOneArg_eq (ha a List.mem_cons_self) hvalues
    have hrest := @ih (pre ++ a.value (offsetBytes pos)) (pos + a.data.length) (front ++ a.data)
      (fun b hb => ha b (List.mem_cons_of_mem a hb))
      (fun b hb => hnn b (List.mem_cons_of_mem a hb)) (by rw [hvalues, List.append_assoc])
      (by rw [harea, List.append_assoc]) (by rw [hpos, List.length_append]) (by omega)
    rw [List.length_append, FormatArg.length_value (length_offsetBytes pos)] at hrest
    have hnear : pos < 2 ^ 16 → a.readBack block (pos % 2 ^ 16) = some a := by
      intro hlt
      rw [Nat.mod_eq_of_lt hlt, hpos, harea]
      exact readBack_eq (hnn a List.mem_cons_self) _ (hpos ▸ h0)
    rw [Found, or_iff_right_of_imp hnear, ← hrest, List.map_cons, decodeArgs, hone]
    cases a.readBack block (pos % 2 ^ 16) with
    | none => simp
    | some b =>
      simp only [Option.map_some, Option.bind_some, Option.map_eq_some_iff, List.cons.injEq]
      constructor
      · rintro ⟨as, has, rfl, rfl⟩
        exact ⟨rfl, has⟩
      · rintro ⟨hb, has⟩
        exact ⟨args, has, Option.some.inj hb, rfl⟩

theorem ofByte_toByte (t : ArgType) : ArgType.ofByte t.toByte = t := by
  cases t <;> rfl

theorem numArgs_ne_zero (hargs : args ≠ []) (hlen : args.length ≤ 15) :
    UInt8.ofNat args.length ≠ 0 := by
  intro h
  have h := congrArg UInt8.toNat h
  rw [UInt8.toNat_ofNat', Nat.mod_eq_of_lt (by omega)] at h
  exact hargs (List.length_eq_zero_iff.mp h)

/-- `runFormat` decodes the arguments exactly if they have tags and their strings are found. -/
theorem decode_eq_iff {junk : Nat → UInt8} {e : LogArgs} (hargs : args ≠ [])
    (hlen : args.length ≤ 15) (hnn : ∀ a ∈ args, a.NonNull)
    (hnum : e.numArgs = UInt8.ofNat args.length) (hblock : e.block = layout junk args) :
    e.decode = some args ↔
      (∀ a ∈ args, a.hasTag = true) ∧ Found (layout junk args) (areaStart args) args := by
  have hnum0 : e.numArgs ≠ 0 := hnum ▸ numArgs_ne_zero hargs hlen
  have hcount : loadWord (layout junk args) 0 1 = some args.length := by
    have hword := @loadWord_eq [] (args.map (·.tag.toByte) ++
      (((List.range (align8 (1 + args.length))).drop (1 + args.length)).map junk ++
        (values (areaStart args) args ++ area args))) 0 1 args.length rfl (by omega)
    simpa [layout, header, toBytes] using hword
  have htags : load (layout junk args) 1 args.length = some (args.map (·.tag.toByte)) := by
    have hload := @load_append _ [UInt8.ofNat args.length] (args.map (·.tag.toByte))
      (((List.range (align8 (1 + args.length))).drop (1 + args.length)).map junk ++
        (values (areaStart args) args ++ area args)) 1 args.length rfl (by simp)
    simpa [layout, header] using hload
  have hofByte : (args.map (·.tag.toByte)).map ArgType.ofByte = args.map FormatArg.tag := by
    rw [List.map_map]
    exact List.map_congr_left fun a _ => ofByte_toByte a.tag
  have hstart : 0 < areaStart args := by
    have := align8_le (1 + args.length)
    rw [areaStart]
    omega
  have hdecode : e.decode = decodeArgs (layout junk args) (header junk args).length
      (args.map FormatArg.tag) := by
    rw [LogArgs.decode, if_neg hnum0, hblock, hcount, Option.bind_some, htags, Option.bind_some,
      hofByte, length_header]
  rw [hdecode]
  have hiff := fun ha => @decodeArgs_eq_iff (header junk args) args (areaStart args) (area args)
    (header junk args ++ values (areaStart args) args) [] (layout junk args) ha hnn
    (by rw [layout, List.append_assoc]) (by rw [layout, List.append_nil])
    (by rw [List.length_append, length_header, length_values]; rfl) hstart
  exact ⟨fun h => ⟨hasTag_of_decodeArgs h, (hiff (hasTag_of_decodeArgs h)).mp h⟩,
    fun h => (hiff h.1).mpr h.2⟩

/-! ## What is printed -/

/-- A brace in a format string. -/
def isBrace (c : UInt8) : Bool := c == 0x7B || c == 0x7D

/-- The text that a format string without replacement fields stands for: a brace is written
    twice. -/
def unescape : Bytes → Option Bytes
  | [] => some []
  | [c] => if isBrace c then none else some [c]
  | c :: d :: s =>
    if isBrace c then if d = c then (unescape s).map (c :: ·) else none
    else (unescape (d :: s)).map (c :: ·)

/-- What the code relies on of fmt: without arguments it prints the text of the format string. -/
def PrintsText (vformat : Bytes → List FormatArg → Bytes) : Prop :=
  ∀ fmt t, unescape fmt = some t → vformat fmt [] = t

/-- The text is at least half as long as the format string, and as long only without braces. -/
theorem unescape_length {fmt t : Bytes} (h : unescape fmt = some t) :
    fmt.length ≤ 2 * t.length ∧ t.length ≤ fmt.length ∧
      (t.length = fmt.length → ∀ c ∈ fmt, isBrace c = false) := by
  fun_induction unescape fmt generalizing t with
  | case1 =>
    obtain rfl := Option.some.inj h
    simp
  | case2 => exact absurd h nofun
  | case3 c hc =>
    obtain rfl := Option.some.inj h
    simp [hc]
  | case4 c s hc ih =>
    obtain ⟨u, hu, rfl⟩ := Option.map_eq_some_iff.mp h
    obtain ⟨htwice, hle, -⟩ := ih hu
    simp only [List.length_cons]
    exact ⟨by omega, by omega, fun heq => absurd heq (by omega)⟩
  | case5 => exact absurd h nofun
  | case6 c d s hc ih =>
    obtain ⟨u, hu, rfl⟩ := Option.map_eq_some_iff.mp h
    obtain ⟨htwice, hle, hnone⟩ := ih hu
    simp only [List.length_cons] at htwice hle hnone ⊢
    refine ⟨by omega, by omega, fun heq b hb => ?_⟩
    rcases List.mem_cons.mp hb with rfl | hb
    · exact Bool.eq_false_iff.mpr hc
    · exact hnone (by omega) b hb

theorem unescape_eq_self {fmt : Bytes} (h : ∀ c ∈ fmt, isBrace c = false) :
    unescape fmt = some fmt := by
  fun_induction unescape fmt with
  | case1 => rfl
  | case2 c hc => exact absurd (h c List.mem_cons_self) (by simp [hc])
  | case3 => rfl
  | case4 c s hc ih => exact absurd (h c List.mem_cons_self) (by simp [hc])
  | case5 c d s hc => exact absurd (h c List.mem_cons_self) (by simp [hc])
  | case6 c d s hc ih =>
    rw [ih fun b hb => h b (List.mem_cons_of_mem c hb)]
    rfl

/-- `setArgs` writes into its block only, decoding reads in it only and gives the arguments,
    and `runFormat` prints what fmt prints for them. -/
def Survives (junk : Nat → UInt8) (fmt : Bytes) (args : List FormatArg) : Prop :=
  ∃ e, setArgs junk fmt args = some e ∧ e.decode = some args ∧
    ∀ vformat, PrintsText vformat → ∀ out,
      e.runFormat vformat out = some (out ++ vformat fmt args)

/-- A text that is at least half as long as the format string is printed from it exactly if it
    is the format string, and `fmt_len` can hold its length. -/
theorem take_fmtLen_eq_iff {fmt t : Bytes} (htwice : fmt.length ≤ 2 * t.length)
    (hle : t.length ≤ fmt.length) :
    fmt.take (UInt16.ofNat fmt.length).toNat = t ↔ fmt.length < 2 ^ 16 ∧ t = fmt := by
  rw [UInt16.toNat_ofNat']
  constructor
  · rintro rfl
    rw [List.length_take] at htwice
    have hlt : fmt.length < 2 ^ 16 := by omega
    rw [Nat.mod_eq_of_lt hlt, List.take_length]
    exact ⟨hlt, rfl⟩
  · rintro ⟨hlt, rfl⟩
    rw [Nat.mod_eq_of_lt hlt, List.take_length]

theorem survives_nil_iff (junk : Nat → UInt8) {fmt t : Bytes} (ht : unescape fmt = some t) :
    Survives junk fmt [] ↔ fmt.length < 2 ^ 16 ∧ ∀ c ∈ fmt, isBrace c = false := by
  obtain ⟨htwice, hle, hnone⟩ := unescape_length ht
  have htext : t = fmt ↔ ∀ c ∈ fmt, isBrace c = false :=
    ⟨fun heq => hnone (congrArg List.length heq),
      fun h => Option.some.inj (ht.symm.trans (unescape_eq_self h))⟩
  rw [← htext, ← take_fmtLen_eq_iff htwice hle]
  constructor
  · rintro ⟨e, he, -, hprint⟩
    obtain rfl := Option.some.inj he
    have h := hprint (fun fmt _ => (unescape fmt).getD [])
      (fun fmt t h => by simp [h]) []
    simpa [LogArgs.runFormat, ht] using h
  · intro htake
    refine ⟨_, rfl, rfl, fun vformat hv out => ?_⟩
    rw [hv fmt t ht, ← htake]
    rfl

theorem survives_iff_of_ne_nil (junk : Nat → UInt8) (fmt : Bytes) (hargs : args ≠ [])
    (hlen : args.length ≤ 15) (hnn : ∀ a ∈ args, a.NonNull) :
    Survives junk fmt args ↔ fmt.length < 2 ^ 16 ∧
      (∀ a ∈ args, a.hasTag = true) ∧ Found (layout junk args) (areaStart args) args := by
  have hset := setArgs_eq junk fmt hargs hnn
  have htake : fmt.take (UInt16.ofNat fmt.length).toNat = fmt ↔ fmt.length < 2 ^ 16 := by
    rw [take_fmtLen_eq_iff (by omega) (Nat.le_refl _), and_iff_left rfl]
  have hnum := numArgs_ne_zero hargs hlen
  constructor
  · rintro ⟨e, he, hdecode, hprint⟩
    obtain rfl := Option.some.inj (hset.symm.trans he)
    refine ⟨htake.mp ?_, (decode_eq_iff hargs hlen hnn rfl rfl).mp hdecode⟩
    -- a format that copies the format string
    have h := hprint (fun fmt args => if args = [] then (unescape fmt).getD [] else fmt)
      (fun fmt t h => by simp [h]) []
    simpa [LogArgs.runFormat, hnum, hdecode, hargs] using h
  · rintro ⟨hfmt, hargs'⟩
    refine ⟨_, hset, (decode_eq_iff hargs hlen hnn rfl rfl).mpr hargs', fun vformat _ out => ?_⟩
    rw [LogArgs.runFormat, if_neg hnum, (decode_eq_iff hargs hlen hnn rfl rfl).mpr hargs']
    dsimp only
    rw [htake.mpr hfmt]
    rfl

/-- Log arguments survive exactly if none is a `char` or a `float`, each string is found at the
    16 bits of its offset, the length of the format string has 16 bits, and without arguments it
    has no braces. -/
theorem survives_iff (junk : Nat → UInt8) (fmt : Bytes) (args : List FormatArg)
    (hlen : args.length ≤ 15) (hnn : ∀ a ∈ args, a.NonNull)
    (hfmt : args = [] → (unescape fmt).isSome = true) :
    Survives junk fmt args ↔
      fmt.length < 2 ^ 16 ∧ (args = [] → ∀ c ∈ fmt, isBrace c = false) ∧
        (∀ a ∈ args, a.hasTag = true) ∧ Found (layout junk args) (areaStart args) args := by
  by_cases hargs : args = []
  · subst hargs
    obtain ⟨t, ht⟩ := Option.isSome_iff_exists.mp (hfmt rfl)
    rw [survives_nil_iff junk ht]
    simp [Found]
  · rw [survives_iff_of_ne_nil junk fmt hargs hlen hnn]
    simp [hargs]

theorem survives_iff_two :
    Survives (fun _ => 0) [0x7B, 0x7D, 0x7B, 0x7D]
      [.pointer 8, .stringView ⟨[0x61], by decide⟩] :=
  (survives_iff (fun _ => 0) [0x7B, 0x7D, 0x7B, 0x7D]
    [.pointer 8, .stringView ⟨[0x61], by decide⟩] (by decide) (by simp [FormatArg.NonNull])
    nofun).mpr
    ⟨by decide, nofun, by decide, Or.inl (by decide), Or.inl (by decide), trivial⟩

/-- A `char` does not survive: its tag is that of a pointer, and decoding reads eight bytes where
    one was written. -/
theorem char_does_not_survive :
    ¬ ∀ (junk : Nat → UInt8) (fmt : Bytes) (args : List FormatArg), args.length ≤ 15 →
      (∀ a ∈ args, a.NonNull) → (args = [] → (unescape fmt).isSome = true) →
      Survives junk fmt args := by
  intro h
  have hchar := h (fun _ => 0) [0x7B, 0x7D] [.char 0x61] (by decide)
    (by simp [FormatArg.NonNull]) nofun
  obtain ⟨e, he, hdecode, -⟩ := hchar
  obtain rfl := Option.some.inj he
  exact absurd hdecode (by decide)

end RocketRpc.Common
