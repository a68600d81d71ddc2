import Mathlib.Logic.Function.Basic
import RocketRpc.Lib.TextSearch
import RocketRpc.Tcp.NetAddr

/-
  The registry in etcd (`rocket/common/etcd_registry.cc`).

  A service at an address is the key `/services/name/addr`, which goes to etcd in base64. Who
  discovers a name asks for the keys with a prefix, and reads the answer by searching the text.
  `Etcd` is the server: what it answers to a request, and what becomes of it.
-/

namespace RocketRpc.Registry

open RocketRpc.Tcp TextSearch

def text (s : String) : Bytes := s.toUTF8.toList

/-! ## Base64 -/

def kBase64Table : Bytes :=
  text "ABCDEFGHIJKLMNOPQRSTUVWXYZabcdefghijklmnopqrstuvwxyz0123456789+/"

def equalsSign : UInt8 := 61

def letterA : UInt8 := 65

def tableAt (n : Nat) : UInt8 := kBase64Table.getD n 0

def base64Encode (data : Bytes) : Bytes :=
  match data with
  | [] => []
  | d :: ds =>
    let b0 := d.toNat
    let b1 := (ds.getD 0 0).toNat
    let b2 := (ds.getD 1 0).toNat
    tableAt (b0 >>> 2) :: tableAt ((b0 &&& 3) <<< 4 ||| b1 >>> 4) ::
      (if 0 < ds.length then tableAt ((b1 &&& 15) <<< 2 ||| b2 >>> 6) else equalsSign) ::
      (if 1 < ds.length then tableAt (b2 &&& 63) else equalsSign) ::
      base64Encode (ds.drop 2)
termination_by data.length
decreasing_by
  rw [List.length_drop, List.length_cons]
  omega

/-- `decode_table`: 0 for what is not in the table. -/
def decodeTable (c : UInt8) : Nat := if c ∈ kBase64Table then kBase64Table.idxOf c else 0

def base64Decode (data : Bytes) : Bytes :=
  match data with
  | [] => []
  | b0 :: ds =>
    let b1 := ds.getD 0 letterA
    let b2 := ds.getD 1 letterA
    let b3 := ds.getD 2 letterA
    let v0 := decodeTable b0
    let v1 := decodeTable b1
    let v2 := decodeTable b2
    let v3 := decodeTable b3
    [UInt8.ofNat (v0 <<< 2 ||| v1 >>> 4)] ++
      (if b2 ≠ equalsSign then [UInt8.ofNat (v1 <<< 4 ||| v2 >>> 2)] else []) ++
      (if b3 ≠ equalsSign then [UInt8.ofNat (v2 <<< 6 ||| v3)] else []) ++
      base64Decode (ds.drop 3)
termination_by data.length
decreasing_by
  rw [List.length_drop, List.length_cons]
  omega

/-- The loop of `base64RangeEnd`, with `i + 1` bytes left: the last byte that can be incremented
    is, and what is behind it goes. -/
def incrementLast (key : Bytes) : Nat → Bytes
  | 0 => [0]
  | i + 1 =>
    if key.getD i 0 < 0xff then key.take i ++ [key.getD i 0 + 1] else incrementLast key i

/-- `static_cast<int>` of a size, or 0 where that is negative. -/
def intSize (n : Nat) : Nat := ((n : Int).bmod 4294967296).toNat

def base64RangeEnd (key : Bytes) : Bytes := base64Encode (incrementLast key (intSize key.length))

/-! ## JSON -/

def quote : UInt8 := 34

def isBlank (c : UInt8) : Bool := c == 32 || c == 9 || c == 10

def jsonField (json key : Bytes) : Bytes :=
  let pat := quote :: (key ++ [quote])
  match search pat json with
  | none => []
  | some pos =>
    let behind := json.drop (pos + pat.length)
    match search [colon] behind with
    | none => []
    | some pos =>
      match (behind.drop (pos + 1)).dropWhile isBlank with
      | [] => []
      | c :: cs =>
        if c = quote then
          match search [quote] cs with
          | none => []
          | some stop => cs.take stop
        else (c :: cs).takeWhile fun d => isDigit d || d == minus

def isSpace (c : UInt8) : Bool := c == 32 || (9 ≤ c && c ≤ 13)

def plus : UInt8 := 43

/-- `std::stoll`, which throws where there is no number or one that does not fit. -/
def stoll (s : Bytes) : Option Int :=
  let s := s.dropWhile isSpace
  let ds := (if s.head? = some minus ∨ s.head? = some plus then s.tail else s).takeWhile isDigit
  if ds.isEmpty then none
  else
    let n : Int := if s.head? = some minus then -(natOf ds : Int) else natOf ds
    if -9223372036854775808 ≤ n ∧ n ≤ 9223372036854775807 then some n else none

/-! ## Requests -/

/-- The server, with what `httpPost` gets for a path and a body: nothing where that fails. -/
structure Etcd (σ : Type) where
  httpPost : Bytes → Bytes → σ → Bytes × σ

def leaseGrant : Bytes := text "/v3/lease/grant"

def kvPut : Bytes := text "/v3/kv/put"

def kvRange : Bytes := text "/v3/kv/range"

def servicesPrefix : Bytes := text "/services/"

def serviceKey (name addr : Bytes) : Bytes := servicesPrefix ++ (name ++ slash :: addr)

def grantRequest (ttlSeconds : Int) : Bytes :=
  text "\x7b\"TTL\":" ++ (text (toString ttlSeconds) ++ text ",\"ID\":0\x7d")

/-- The start of a request with a key. -/
def openKey : Bytes := text "\x7b\"key\":\""

def putRequest (key : Bytes) (leaseId : Int) : Bytes :=
  openKey ++ (key ++ (text "\",\"value\":\"e30=\",\"lease\":" ++
    (text (toString leaseId) ++ text "\x7d")))

def rangeRequest (key rangeEnd : Bytes) : Bytes :=
  openKey ++ (key ++ (text "\",\"range_end\":\"" ++ (rangeEnd ++ text "\"\x7d")))

structure LeaseEntry where
  leaseId : Int
  ttlSeconds : Int
  deriving DecidableEq, Repr

structure EtcdRegistry where
  leases : Bytes → Option LeaseEntry := fun _ => none
  leaseRunning : Bool := false

variable {σ : Type}

/-- `registerService`: the lease, or -1. There is no outcome where `std::stoll` throws. -/
def registerService (e : Etcd σ) (name addr : Bytes) (ttlSeconds : Int) (r : EtcdRegistry)
    (s : σ) : Option (Int × EtcdRegistry × σ) :=
  let leaseRsp := e.httpPost leaseGrant (grantRequest ttlSeconds) s
  if leaseRsp.1.isEmpty then some (-1, r, leaseRsp.2)
  else
    let leaseStr := jsonField leaseRsp.1 (text "ID")
    if leaseStr.isEmpty then some (-1, r, leaseRsp.2)
    else
      (stoll leaseStr).map fun leaseId =>
        let key := serviceKey name addr
        let putRsp := e.httpPost kvPut (putRequest (base64Encode key) leaseId) leaseRsp.2
        if putRsp.1.isEmpty then (-1, r, putRsp.2)
        else
          (leaseId,
            { leases := Function.update r.leases key (some ⟨leaseId, ttlSeconds⟩)
              leaseRunning := true }, putRsp.2)

/-- A lease is granted, the key is put with it, and the lease is stored. -/
theorem registerService_ok {e : Etcd σ} {name addr : Bytes} {ttlSeconds leaseId : Int}
    {r r' : EtcdRegistry} {s s' : σ}
    (h : registerService e name addr ttlSeconds r s = some (leaseId, r', s'))
    (hleaseId : leaseId ≠ -1) :
    let s₁ := (e.httpPost leaseGrant (grantRequest ttlSeconds) s).2
    let putRsp := e.httpPost kvPut (putRequest (base64Encode (serviceKey name addr)) leaseId) s₁
    ¬ putRsp.1.isEmpty ∧ s' = putRsp.2 ∧
      r'.leases = Function.update r.leases (serviceKey name addr) (some ⟨leaseId, ttlSeconds⟩) := by
  unfold registerService at h
  dsimp only at h
  split at h
  · obtain ⟨rfl, -⟩ := Prod.mk.inj (Option.some.inj h)
    exact absurd rfl hleaseId
  split at h
  · obtain ⟨rfl, -⟩ := Prod.mk.inj (Option.some.inj h)
    exact absurd rfl hleaseId
  obtain ⟨id, -, hput⟩ := Option.map_eq_some_iff.mp h
  split at hput
  · obtain ⟨rfl, -⟩ := Prod.mk.inj hput
    exact absurd rfl hleaseId
  · rename_i hanswer
    obtain ⟨rfl, hrest⟩ := Prod.mk.inj hput
    obtain ⟨rfl, rfl⟩ := Prod.mk.inj hrest
    exact ⟨hanswer, rfl, rfl⟩

def kvsPattern : Bytes := text "\"kvs\""

def keyPattern : Bytes := text "\"key\":\""

/-- The loop of `discover`, over what is left of the answer. -/
def readKeys (pre sv : Bytes) : List IPNetAddr :=
  match search keyPattern sv with
  | none => []
  | some pos =>
    match hstop : search [quote] (sv.drop (pos + 7)) with
    | none => []
    | some stop =>
      let key := base64Decode ((sv.drop (pos + 7)).take stop)
      if pre.isPrefixOf key then
        IPNetAddr.ofText (key.drop pre.length) ::
          readKeys pre ((sv.drop (pos + 7)).drop (stop + 1))
      else readKeys pre ((sv.drop (pos + 7)).drop (stop + 1))
termination_by sv.length
decreasing_by
  all_goals
    have hle := add_le_of_search hstop
    simp only [List.length_drop, List.length_singleton] at hle ⊢
    omega

def discover (e : Etcd σ) (name : Bytes) (s : σ) : List IPNetAddr × σ :=
  let pre := servicesPrefix ++ (name ++ [slash])
  let rsp := e.httpPost kvRange (rangeRequest (base64Encode pre) (base64RangeEnd pre)) s
  if rsp.1.isEmpty then ([], rsp.2)
  else
    match search kvsPattern rsp.1 with
    | none => ([], rsp.2)
    | some pos => (readKeys pre (rsp.1.drop pos), rsp.2)

end RocketRpc.Registry
