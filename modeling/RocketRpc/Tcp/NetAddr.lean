import Mathlib.Data.List.TakeWhile
import RocketRpc.Lib.TextSearch
import RocketRpc.Tcp.TcpBuffer

/-
  Addresses as texts (`rocket/net/tcp/net_addr.cc`).

  An `IPNetAddr` is made from any text; what is no ip is any interface, and what is no port is 0.
  A `ValidAddress` is four decimal numbers and a port. `checkValid` accepts it, and the address
  made from it is the one that it says (`ofText_valid`).
-/

namespace RocketRpc.Tcp

open TextSearch

def kMaxPort : Nat := 65535

def isDigit (c : UInt8) : Bool := 48 ≤ c && c ≤ 57

def dot : UInt8 := 46

def slash : UInt8 := 47

def colon : UInt8 := 58

def minus : UInt8 := 45

/-- The number that digits say. -/
def natOf (ds : Bytes) : Nat := ds.foldl (fun n c => 10 * n + (c.toNat - 48)) 0

/-- `std::from_chars` for an unsigned type: the digits that the text starts with. -/
def fromChars (max : Nat) (s : Bytes) : Option Nat :=
  let ds := s.takeWhile isDigit
  if ds.isEmpty then none
  else if natOf ds ≤ max then some (natOf ds)
  else none

/-- `std::from_chars` for `int`. -/
def fromCharsInt (s : Bytes) : Option Int :=
  match s with
  | c :: cs =>
    if c = minus then (fromChars 2147483648 cs).map fun n => -(n : Int)
    else (fromChars 2147483647 s).map Int.ofNat
  | [] => none

/-- An address of IPv4. -/
structure InAddr where
  a : UInt8
  b : UInt8
  c : UInt8
  d : UInt8
  deriving DecidableEq, Repr

def INADDR_ANY : InAddr := ⟨0, 0, 0, 0⟩

/-- A decimal number up to 255 of at most three digits, without zeros in front. -/
def octet (s : Bytes) : Option UInt8 :=
  if s ≠ [] ∧ s.all isDigit ∧ s.length ≤ 3 ∧ (s.length = 1 ∨ s.head? ≠ some 48) ∧
      natOf s ≤ 255 then
    some (UInt8.ofNat (natOf s))
  else none

/-- `inet_pton` for `AF_INET`. -/
def inetPton (s : Bytes) : Option InAddr :=
  match s.splitOn dot with
  | [a, b, c, d] => do return ⟨← octet a, ← octet b, ← octet c, ← octet d⟩
  | _ => none

/-- The text of a C string ends at its first zero. -/
def parseIpv4 (ip : Bytes) : Option InAddr := inetPton (ip.takeWhile (· ≠ 0))

structure IPNetAddr where
  sinAddr : InAddr
  sinPort : UInt16
  deriving DecidableEq, Repr

namespace IPNetAddr

/-- `IPNetAddr(addr)`. -/
def ofText (addr : Bytes) : IPNetAddr :=
  match search [colon] addr with
  | none => ⟨INADDR_ANY, 0⟩
  | some colonPos =>
    ⟨(parseIpv4 (addr.take colonPos)).getD INADDR_ANY,
      UInt16.ofNat ((fromChars 65535 (addr.drop (colonPos + 1))).getD 0)⟩

/-- `IPNetAddr::checkValid(addr)`. -/
def checkValid (addr : Bytes) : Bool :=
  match search [colon] addr with
  | none => false
  | some colonPos =>
    let ip := addr.take colonPos
    let portStr := addr.drop (colonPos + 1)
    if ip.isEmpty || portStr.isEmpty then false
    else
      match fromCharsInt portStr with
      | none => false
      | some port =>
        if port ≤ 0 ∨ port > kMaxPort then false else (parseIpv4 ip).isSome

end IPNetAddr

/-! ## Valid addresses -/

def decimal (n : UInt8) : Bytes :=
  let place (k : Nat) : UInt8 := UInt8.ofNat (48 + n.toNat / k % 10)
  if n < 10 then [place 1]
  else if n < 100 then [place 10, place 1]
  else [place 100, place 10, place 1]

def InAddr.text (ip : InAddr) : Bytes :=
  decimal ip.a ++ dot :: (decimal ip.b ++ dot :: (decimal ip.c ++ dot :: decimal ip.d))

/-- Four decimal numbers, a colon and the digits of a port. -/
def ValidAddress (addr : Bytes) : Prop :=
  ∃ (ip : InAddr) (port : Bytes), addr = ip.text ++ colon :: port ∧
    (∀ c ∈ port, isDigit c = true) ∧ 0 < natOf port ∧ natOf port ≤ kMaxPort

theorem forall_uint8 {p : UInt8 → Prop} (h : ∀ n < 256, p (UInt8.ofNat n)) (n : UInt8) : p n := by
  have hn := h n.toNat n.toNat_lt
  rwa [UInt8.ofNat_toNat] at hn

theorem octet_decimal (n : UInt8) : octet (decimal n) = some n := by
  revert n
  exact forall_uint8 (by decide +kernel)

theorem isDigit_ofNat {r : Nat} (h : r < 10) : isDigit (UInt8.ofNat (48 + r)) = true := by
  have hto : (UInt8.ofNat (48 + r)).toNat = 48 + r := Nat.mod_eq_of_lt (by omega)
  rw [isDigit, Bool.and_eq_true, decide_eq_true_iff, decide_eq_true_iff, UInt8.le_iff_toNat_le,
    UInt8.le_iff_toNat_le, hto]
  have hnine : (57 : UInt8).toNat = 57 := rfl
  exact ⟨Nat.le_add_right 48 r, by omega⟩

theorem decimal_digits (n : UInt8) : ∀ c ∈ decimal n, isDigit c = true := by
  have hplace : ∀ k, isDigit (UInt8.ofNat (48 + n.toNat / k % 10)) = true :=
    fun k => isDigit_ofNat (Nat.mod_lt _ (by decide))
  intro c hc
  simp only [decimal] at hc
  split_ifs at hc <;> simp only [List.mem_cons, List.not_mem_nil, or_false] at hc
  · exact hc ▸ hplace 1
  · obtain rfl | rfl := hc
    · exact hplace 10
    · exact hplace 1
  · obtain rfl | rfl | rfl := hc
    · exact hplace 100
    · exact hplace 10
    · exact hplace 1

theorem not_mem_of_digits {s : Bytes} (h : ∀ c ∈ s, isDigit c = true) {x : UInt8}
    (hx : isDigit x = false) : x ∉ s :=
  fun hmem => absurd (hx.symm.trans (h x hmem)) (by simp)

theorem InAddr.not_mem_text (ip : InAddr) {x : UInt8} (hx : isDigit x = false) (hdot : x ≠ dot) :
    x ∉ ip.text := by
  simp [InAddr.text, hdot, not_mem_of_digits (decimal_digits _) hx]

theorem inetPton_text (ip : InAddr) : inetPton ip.text = some ip := by
  have hdot : ∀ n : UInt8, dot ∉ decimal n :=
    fun n => not_mem_of_digits (decimal_digits n) (by decide)
  have hsplit : ip.text.splitOn dot = [decimal ip.a, decimal ip.b, decimal ip.c, decimal ip.d] := by
    rw [InAddr.text, List.splitOn_append_cons_self_of_not_mem (hdot _),
      List.splitOn_append_cons_self_of_not_mem (hdot _),
      List.splitOn_append_cons_self_of_not_mem (hdot _), List.splitOn_eq_singleton (hdot _)]
  simp [inetPton, hsplit, octet_decimal]

theorem parseIpv4_text (ip : InAddr) : parseIpv4 ip.text = some ip := by
  have hzero : (0 : UInt8) ∉ ip.text := ip.not_mem_text (by decide) (by decide)
  have hall : ip.text.takeWhile (· ≠ 0) = ip.text := by
    refine List.takeWhile_eq_self_iff.mpr fun c hc => ?_
    exact decide_eq_true fun heq => hzero (heq ▸ hc)
  rw [parseIpv4, hall, inetPton_text]

/-! ## The two parts -/

section

variable {s : Bytes} {n : Nat}

theorem fromChars_eq_some {max : Nat} (hn : 0 < n) (hmax : n ≤ max) :
    fromChars max s = some n ↔ natOf (s.takeWhile isDigit) = n := by
  simp only [fromChars, List.isEmpty_iff]
  split_ifs with hnil hle
  · rw [hnil]
    exact iff_of_false (by simp) (Nat.ne_of_lt hn)
  · exact Option.some_inj
  · exact iff_of_false (by simp) (by omega)

theorem fromCharsInt_eq_some (hn : 0 < n) (hmax : n ≤ kMaxPort) :
    fromCharsInt s = some (n : Int) ↔ natOf (s.takeWhile isDigit) = n := by
  cases s with
  | nil => exact iff_of_false (by simp [fromCharsInt]) (Nat.ne_of_lt hn)
  | cons c cs =>
    rw [fromCharsInt]
    split
    · rename_i hminus
      have hnone : (c :: cs).takeWhile isDigit = [] := by
        rw [hminus]
        rfl
      rw [hnone]
      refine iff_of_false (fun h => ?_) (Nat.ne_of_lt hn)
      obtain ⟨k, hk, hneg⟩ := Option.map_eq_some_iff.mp h
      obtain ⟨m, -, hm⟩ := Option.bind_eq_some_iff.mp hk
      have hnat : (m : Int) = k := Option.some.inj hm
      omega
    · have hint : n ≤ 2147483647 := Nat.le_trans hmax (by decide)
      rw [← fromChars_eq_some hn hint, Option.map_eq_some_iff]
      exact ⟨fun ⟨k, hk, heq⟩ => Int.ofNat.inj heq ▸ hk, fun h => ⟨n, h, rfl⟩⟩

end

/-- The digits of a port. -/
def IsPort (port : Bytes) : Prop :=
  (∀ c ∈ port, isDigit c = true) ∧ 0 < natOf port ∧ natOf port ≤ kMaxPort

section

variable {ip port : Bytes}

theorem search_colon (hip : colon ∉ ip) : search [colon] (ip ++ colon :: port) = some ip.length :=
  search_delimiter hip port

theorem drop_colon : (ip ++ colon :: port).drop (ip.length + 1) = port := by
  rw [List.append_cons, List.drop_left' (by simp)]

/-- What `checkValid` looks at: the text of the ip up to a zero, and the digits that the text of
    the port starts with. -/
theorem checkValid_append (hip : colon ∉ ip) :
    IPNetAddr.checkValid (ip ++ colon :: port) = true ↔
      (parseIpv4 ip).isSome = true ∧ IsPort (port.takeWhile isDigit) := by
  have hdigits : ∀ c ∈ port.takeWhile isDigit, isDigit c = true :=
    fun c hc => List.mem_takeWhile_imp hc
  have hparse : ip = [] → parseIpv4 ip = none := by
    rintro rfl
    rfl
  simp only [IPNetAddr.checkValid, search_colon hip, List.take_left, drop_colon]
  constructor
  · intro h
    split at h
    · exact absurd h (by simp)
    · split at h
      · exact absurd h (by simp)
      · rename_i p hp
        split at h
        · exact absurd h (by simp)
        · rename_i hrange
          obtain ⟨n, rfl⟩ : ∃ n : Nat, p = n := ⟨p.toNat, by omega⟩
          have hn : 0 < n ∧ n ≤ kMaxPort := by omega
          have heq := (fromCharsInt_eq_some hn.1 hn.2).mp hp
          exact ⟨h, hdigits, by omega, by omega⟩
  · rintro ⟨hsome, -, hpos, hmax⟩
    have hne : (ip.isEmpty || port.isEmpty) = false := by
      rw [Bool.or_eq_false_iff, List.isEmpty_eq_false_iff, List.isEmpty_eq_false_iff]
      constructor
      · intro h
        rw [hparse h] at hsome
        exact absurd hsome (by simp)
      · rintro rfl
        exact absurd hpos (by decide)
    have hrange : ¬ ((natOf (port.takeWhile isDigit) : Int) ≤ 0 ∨
        (natOf (port.takeWhile isDigit) : Int) > kMaxPort) := by omega
    rw [hne, (fromCharsInt_eq_some hpos hmax).mpr rfl]
    simp only [Bool.false_eq_true, if_false, hrange, hsome]

/-- The address that is made of the same two parts. -/
theorem ofText_append {a : InAddr} (hip : colon ∉ ip) (ha : parseIpv4 ip = some a)
    (hport : IsPort (port.takeWhile isDigit)) :
    IPNetAddr.ofText (ip ++ colon :: port) =
      ⟨a, UInt16.ofNat (natOf (port.takeWhile isDigit))⟩ := by
  have hparse : fromChars 65535 port = some (natOf (port.takeWhile isDigit)) :=
    (fromChars_eq_some hport.2.1 hport.2.2).mpr rfl
  simp only [IPNetAddr.ofText, search_colon hip, List.take_left, drop_colon, ha,
    Option.getD_some, hparse]

end

theorem takeWhile_digits {port : Bytes} (h : ∀ c ∈ port, isDigit c = true) :
    port.takeWhile isDigit = port := List.takeWhile_eq_self_iff.mpr h

theorem InAddr.colon_not_mem (ip : InAddr) : colon ∉ ip.text :=
  ip.not_mem_text (by decide) (by decide)

/-- The address that is made from a valid text. -/
theorem ofText_valid {ip : InAddr} {port : Bytes} (hdigits : ∀ c ∈ port, isDigit c = true)
    (hpos : 0 < natOf port) (hmax : natOf port ≤ kMaxPort) :
    IPNetAddr.ofText (ip.text ++ colon :: port) = ⟨ip, UInt16.ofNat (natOf port)⟩ := by
  have hall := takeWhile_digits hdigits
  have hport : IsPort (port.takeWhile isDigit) := hall.symm ▸ ⟨hdigits, hpos, hmax⟩
  rw [ofText_append ip.colon_not_mem (parseIpv4_text ip) hport, hall]

theorem checkValid_valid {addr : Bytes} (h : ValidAddress addr) :
    IPNetAddr.checkValid addr = true := by
  obtain ⟨ip, port, rfl, hport⟩ := h
  rw [checkValid_append ip.colon_not_mem, parseIpv4_text, takeWhile_digits hport.1]
  exact ⟨rfl, hport⟩

theorem slash_not_mem {addr : Bytes} (h : ValidAddress addr) : slash ∉ addr := by
  obtain ⟨ip, port, rfl, hdigits, -, -⟩ := h
  have hip : slash ∉ ip.text := ip.not_mem_text (by decide) (by decide)
  have hport : slash ∉ port := not_mem_of_digits hdigits (by decide)
  have hcolon : slash ≠ colon := by decide
  simp [hip, hport, hcolon]

end RocketRpc.Tcp
