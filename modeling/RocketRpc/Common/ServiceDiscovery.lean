import Mathlib.Data.List.Dedup
import Mathlib.Data.List.Perm.Subperm
import RocketRpc.Common.RangeEnd

/-
  Discovery finds what was registered, for names that are not above another one.

  `Stores` is what etcd does: it keeps the keys that are put, and lists those in a range. A
  range from the prefix of a name up to `base64RangeEnd` has every key with this prefix, and
  `discover` drops the others. The keys with the prefix of a name are the ones of its addresses
  and of the names below it, such as `a/b` below `a` (`discover_finds_iff`).
-/

namespace RocketRpc.Registry

open RocketRpc.Tcp TextSearch

variable {σ : Type}

/-! ## Etcd -/

/-- What etcd does with the requests of the registry; `keys` are the ones it has. -/
structure Stores (e : Etcd σ) (keys : σ → Bytes → Prop) : Prop where
  grant : ∀ s ttlSeconds key,
    keys (e.httpPost leaseGrant (grantRequest ttlSeconds) s).2 key ↔ keys s key
  put : ∀ s key leaseId,
    (e.httpPost kvPut (putRequest (Base64.encode key) leaseId) s).1 ≠ [] →
      ∀ key', keys (e.httpPost kvPut (putRequest (Base64.encode key) leaseId) s).2 key' ↔
        key' = key ∨ keys s key'
  range : ∀ s key rangeEnd, ∃ listed : List Bytes, listed.Nodup ∧
    (∀ key', key' ∈ listed ↔ keys s key' ∧ key ≤ key' ∧ (rangeEnd = [0] ∨ key' < rangeEnd)) ∧
    Listed listed
      (e.httpPost kvRange (rangeRequest (Base64.encode key) (Base64.encode rangeEnd)) s).1

/-! ## Registering -/

structure Registration where
  /-- The registry that registers. -/
  caller : Nat
  name : Bytes
  addr : Bytes
  ttlSeconds : Int
  deriving DecidableEq, Repr

/-- A sequence of calls of `registerService`; there is no outcome where one fails. -/
def registerAll (e : Etcd σ) :
    List Registration → (Nat → EtcdRegistry) → σ → Option ((Nat → EtcdRegistry) × σ)
  | [], registries, s => some (registries, s)
  | c :: calls, registries, s =>
    match registerService e c.name c.addr c.ttlSeconds (registries c.caller) s with
    | some (leaseId, r, s') =>
      if leaseId = -1 then none
      else registerAll e calls (Function.update registries c.caller r) s'
    | none => none

/-- The addresses found for a name: one for each text that was registered under it. -/
def Finds (calls : List Registration) (name : Bytes) (found : List IPNetAddr) : Prop :=
  ∃ addrs : List Bytes, addrs.Nodup ∧
    (∀ a, a ∈ addrs ↔ ∃ c ∈ calls, c.name = name ∧ c.addr = a) ∧
    found = addrs.map IPNetAddr.ofText

section

variable {e : Etcd σ} {keys : σ → Bytes → Prop}

theorem registerService_keys (he : Stores e keys) {name addr : Bytes} {ttlSeconds leaseId : Int}
    {r r' : EtcdRegistry} {s s' : σ}
    (h : registerService e name addr ttlSeconds r s = some (leaseId, r', s'))
    (hleaseId : leaseId ≠ -1) (key : Bytes) :
    keys s' key ↔ key = serviceKey name addr ∨ keys s key := by
  obtain ⟨hanswer, rfl, -⟩ := registerService_ok h hleaseId
  rw [base64Encode_eq] at hanswer ⊢
  rw [he.put _ _ _ (by simpa using hanswer), he.grant]

/-- The keys of the calls, and the ones from before. -/
theorem registerAll_keys (he : Stores e keys) {calls : List Registration}
    {registries registries' : Nat → EtcdRegistry} {s s' : σ}
    (h : registerAll e calls registries s = some (registries', s')) (key : Bytes) :
    keys s' key ↔ (∃ c ∈ calls, key = serviceKey c.name c.addr) ∨ keys s key := by
  induction calls generalizing registries s with
  | nil =>
    obtain ⟨-, rfl⟩ := Prod.mk.inj (Option.some.inj h)
    simp
  | cons c calls ih =>
    rw [registerAll] at h
    split at h
    · rename_i leaseId r s₁ hcall
      split at h
      · exact absurd h (by simp)
      · rename_i hleaseId
        rw [ih h, registerService_keys he hcall hleaseId, List.exists_mem_cons_iff, or_assoc,
          or_left_comm]
    · exact absurd h (by simp)

end

/-! ## Names and keys -/

/-- The keys with a prefix are in the range that is asked for. -/
theorem prefix_in_range {pre key : Bytes} (h : pre <+: key) :
    pre ≤ key ∧ (incrementLast pre (intSize pre.length) = [0] ∨
      key < incrementLast pre (intSize pre.length)) :=
  ⟨h.le, lt_incrementLast (intSize_le _) ((List.take_prefix _ _).trans h)⟩

/-- The prefix that `discover` asks for. -/
def namePrefix (name : Bytes) : Bytes := servicesPrefix ++ (name ++ [slash])

/-- A key with the prefix of a name is one of the name, or of a name below it. -/
theorem namePrefix_serviceKey {n name addr : Bytes} (haddr : slash ∉ addr) :
    namePrefix n <+: serviceKey name addr ↔ name = n ∨ n ++ [slash] <+: name := by
  rw [namePrefix, serviceKey, List.prefix_append_right_inj]
  constructor
  · rintro ⟨rest, h⟩
    rw [List.append_assoc, List.singleton_append] at h
    rcases List.append_eq_append_iff.mp h with ⟨more, rfl, hmore⟩ | ⟨more, rfl, hmore⟩
    · cases more with
      | nil => exact Or.inl (List.append_nil n)
      | cons x more =>
        obtain ⟨rfl, -⟩ := List.cons.inj hmore
        exact Or.inr ⟨more, by simp⟩
    · cases more with
      | nil => exact Or.inl (List.append_nil name).symm
      | cons x more =>
        obtain ⟨-, rfl⟩ := List.cons.inj hmore
        exact absurd (by simp) haddr
  · rintro (rfl | ⟨rest, rfl⟩)
    · exact ⟨addr, by simp⟩
    · exact ⟨rest ++ slash :: addr, by simp⟩

theorem serviceKey_eq (n addr : Bytes) : serviceKey n addr = namePrefix n ++ addr := by
  simp [serviceKey, namePrefix]

theorem serviceKey_drop (n addr : Bytes) :
    (serviceKey n addr).drop (namePrefix n).length = addr := by
  rw [serviceKey_eq, List.drop_left]

/-! ## Discovery -/

section

variable {e : Etcd σ} {keys : σ → Bytes → Prop}

/-- `discover` finds the keys with the prefix of the name. -/
theorem discover_found (he : Stores e keys) (n : Bytes) (s : σ) :
    ∃ found : List Bytes, found.Nodup ∧
      (∀ key, key ∈ found ↔ keys s key ∧ namePrefix n <+: key) ∧
      (discover e n s).1 = found.map fun key =>
        IPNetAddr.ofText (key.drop (namePrefix n).length) := by
  obtain ⟨listed, hnodup, hmem, hlisted⟩ :=
    he.range s (namePrefix n) (incrementLast (namePrefix n) (intSize (namePrefix n).length))
  refine ⟨listed.filter fun key => (namePrefix n).isPrefixOf key, hnodup.filter _,
    fun key => ?_, ?_⟩
  · rw [List.mem_filter, hmem, List.isPrefixOf_iff_prefix]
    constructor
    · rintro ⟨⟨hkey, -⟩, hpre⟩
      exact ⟨hkey, hpre⟩
    · rintro ⟨hkey, hpre⟩
      exact ⟨⟨hkey, prefix_in_range hpre⟩, hpre⟩
  · rw [← readAnswer_listed hlisted]
    have hrequest : rangeRequest (base64Encode (namePrefix n)) (base64RangeEnd (namePrefix n)) =
        rangeRequest (Base64.encode (namePrefix n)) (Base64.encode
          (incrementLast (namePrefix n) (intSize (namePrefix n).length))) := by
      rw [base64RangeEnd, base64Encode_eq, base64Encode_eq]
    have hpre : servicesPrefix ++ (n ++ [slash]) = namePrefix n := rfl
    unfold discover readAnswer
    dsimp only
    rw [hpre, hrequest]
    generalize e.httpPost kvRange _ s = rsp
    split
    · rename_i hempty
      have hnone : search kvsPattern [] = none := by
        rw [kvsPattern_eq]
        rfl
      rw [List.isEmpty_iff.mp hempty, hnone]
    · cases search kvsPattern rsp.1 <;> rfl

end

/-- Keys below a name are never the ones of its addresses. -/
theorem serviceKey_ne_below {n name a addr : Bytes} (ha : slash ∉ a)
    (h : n ++ [slash] <+: name) : serviceKey name addr ≠ serviceKey n a := by
  obtain ⟨t, rfl⟩ := h
  intro heq
  have hrest : t ++ slash :: addr = a := by
    simpa [serviceKey] using heq
  exact ha (hrest ▸ by simp)

/-- The keys with the prefix of a name are the ones of its addresses exactly if there is no name
    below it. -/
theorem finds_iff {calls : List Registration} {n : Bytes} {found : List Bytes}
    (hvalid : ∀ c ∈ calls, ValidAddress c.addr) (hnodup : found.Nodup)
    (hkeys : ∀ key, key ∈ found ↔ ∃ c ∈ calls, key = serviceKey c.name c.addr ∧
      (c.name = n ∨ n ++ [slash] <+: c.name)) :
    Finds calls n (found.map fun key => IPNetAddr.ofText (key.drop (namePrefix n).length)) ↔
      ∀ c ∈ calls, ¬ n ++ [slash] <+: c.name := by
  have hinj : ∀ {a b : Bytes}, serviceKey n a = serviceKey n b → a = b := by
    intro a b heq
    rw [← serviceKey_drop n a, heq, serviceKey_drop]
  constructor
  · rintro ⟨addrs, haddrs, hregistered, heq⟩ c hc hbelow
    have hlength : found.length = addrs.length := by simpa using congrArg List.length heq
    -- the key below is there besides the ones of the addresses
    have hmore : (serviceKey c.name c.addr :: addrs.map (serviceKey n)).Nodup := by
      refine List.nodup_cons.mpr ⟨fun hmem => ?_, haddrs.map fun _ _ => hinj⟩
      obtain ⟨a, ha, hsame⟩ := List.mem_map.mp hmem
      obtain ⟨d, hd, -, rfl⟩ := (hregistered a).mp ha
      exact serviceKey_ne_below (slash_not_mem (hvalid d hd)) hbelow hsame.symm
    have hsubset : serviceKey c.name c.addr :: addrs.map (serviceKey n) ⊆ found := by
      intro key hkey
      rw [hkeys]
      rcases List.mem_cons.mp hkey with rfl | hkey
      · exact ⟨c, hc, rfl, Or.inr hbelow⟩
      · obtain ⟨a, ha, rfl⟩ := List.mem_map.mp hkey
        obtain ⟨d, hd, rfl, rfl⟩ := (hregistered a).mp ha
        exact ⟨d, hd, rfl, Or.inl rfl⟩
    have hle := (hmore.subperm hsubset).length_le
    rw [List.length_cons, List.length_map, hlength] at hle
    omega
  · intro hnone
    have hown : ∀ key, key ∈ found ↔ ∃ c ∈ calls, c.name = n ∧ key = serviceKey n c.addr := by
      intro key
      rw [hkeys]
      constructor
      · rintro ⟨c, hc, rfl, rfl | hbelow⟩
        · exact ⟨c, hc, rfl, rfl⟩
        · exact absurd hbelow (hnone c hc)
      · rintro ⟨c, hc, rfl, rfl⟩
        exact ⟨c, hc, rfl, Or.inl rfl⟩
    refine ⟨found.map fun key => key.drop (namePrefix n).length, ?_, fun a => ?_, ?_⟩
    · refine hnodup.map_on fun x hx y hy heq => ?_
      obtain ⟨c, -, -, rfl⟩ := (hown x).mp hx
      obtain ⟨d, -, -, rfl⟩ := (hown y).mp hy
      rw [serviceKey_drop, serviceKey_drop] at heq
      rw [heq]
    · rw [List.mem_map]
      constructor
      · rintro ⟨key, hkey, rfl⟩
        obtain ⟨c, hc, hname, rfl⟩ := (hown key).mp hkey
        exact ⟨c, hc, hname, (serviceKey_drop n c.addr).symm⟩
      · rintro ⟨c, hc, hname, rfl⟩
        exact ⟨serviceKey n c.addr, (hown _).mpr ⟨c, hc, hname, rfl⟩, serviceKey_drop n c.addr⟩
    · rw [List.map_map]
      rfl

/-- `discover` finds the addresses that were registered under a name, and no others, if and only
    if no name below it was registered. -/
theorem discover_finds_iff (e : Etcd σ) (keys : σ → Bytes → Prop) (he : Stores e keys)
    (calls : List Registration) (registries registries' : Nat → EtcdRegistry) (s s' : σ)
    (hnew : ∀ key, keys s key → ¬ servicesPrefix <+: key)
    (hvalid : ∀ c ∈ calls, ValidAddress c.addr)
    (hrun : registerAll e calls registries s = some (registries', s')) (n : Bytes) :
    Finds calls n (discover e n s').1 ↔ ∀ c ∈ calls, ¬ n ++ [slash] <+: c.name := by
  obtain ⟨found, hnodup, hmem, hfound⟩ := discover_found he n s'
  rw [hfound]
  refine finds_iff hvalid hnodup fun key => ?_
  rw [hmem, registerAll_keys he hrun]
  constructor
  · rintro ⟨⟨c, hc, rfl⟩ | hold, hpre⟩
    · exact ⟨c, hc, rfl, (namePrefix_serviceKey (slash_not_mem (hvalid c hc))).mp hpre⟩
    · exact absurd ((List.prefix_append _ _).trans hpre) (hnew key hold)
  · rintro ⟨c, hc, rfl, hname⟩
    exact ⟨Or.inl ⟨c, hc, rfl⟩,
      (namePrefix_serviceKey (slash_not_mem (hvalid c hc))).mpr hname⟩

/-! ## A server -/

/-- A text up to the next quote. -/
def upToQuote (s : Bytes) : Bytes := s.takeWhile (· ≠ quote)

def rangeEndText : Bytes := text "\",\"range_end\":\""

/-- What the server tells the requests apart by, and where the texts in them end. -/
theorem requests_eq :
    (kvPut ≠ leaseGrant ∧ kvRange ≠ leaseGrant ∧ kvRange ≠ kvPut) ∧
      text "\",\"value\":\"e30=\",\"lease\":" =
        quote :: (text "\",\"value\":\"e30=\",\"lease\":").tail ∧
      rangeEndText = quote :: rangeEndText.tail ∧ text "\"\x7d" = [quote, closeBrace] := by
  decide +kernel

/-- The answer that lists some keys and nothing else. -/
def listAnswer (listed : List Bytes) : Bytes :=
  [openBrace] ++ (kvsPattern ++ (text ":[" ++
    (listText (listed.map fun key => ⟨key, []⟩) ++ closeBracket :: [closeBrace])))

/-- A server that has a list of keys. -/
def keyStore : Etcd (List Bytes) where
  httpPost path body keys :=
    let key := upToQuote (body.drop openKey.length)
    let rangeEnd := upToQuote (body.drop (openKey.length + key.length + rangeEndText.length))
    if path = leaseGrant then (text "\x7b\"ID\":\"7\"\x7d", keys)
    else if path = kvPut then (text "\x7b\x7d", base64Decode key :: keys)
    else
      (listAnswer ((keys.filter fun k => base64Decode key ≤ k ∧
        (base64Decode rangeEnd = [0] ∨ k < base64Decode rangeEnd)).dedup), keys)

theorem upToQuote_encode (data w : Bytes) :
    upToQuote (Base64.encode data ++ quote :: w) = Base64.encode data := by
  have hall : ∀ c ∈ Base64.encode data, decide (c ≠ quote) = true :=
    fun c hc => decide_eq_true fun heq => quote_not_mem_encode data (heq ▸ hc)
  rw [upToQuote, List.takeWhile_append_of_pos hall]
  simp

theorem listed_listAnswer (listed : List Bytes) : Listed listed (listAnswer listed) := by
  refine .entries [openBrace] [closeBrace] (listed.map fun key => ⟨key, []⟩) ?_ ?_
    ?_ ?_ rfl
  · simp [Function.comp_def]
  · intro e he
    obtain ⟨key, -, rfl⟩ := List.mem_map.mp he
    exact fun f hf => absurd hf (by simp)
  · rw [kvsPattern_eq]
    decide
  · rw [keyPattern_eq, keyName_eq]
    decide

theorem upToQuote_put (key : Bytes) (leaseId : Int) :
    upToQuote ((putRequest (Base64.encode key) leaseId).drop openKey.length) =
      Base64.encode key := by
  rw [putRequest, List.drop_left, requests_eq.2.1]
  exact upToQuote_encode key _

theorem upToQuote_range (key rangeEnd : Bytes) :
    upToQuote ((rangeRequest (Base64.encode key) (Base64.encode rangeEnd)).drop openKey.length) =
        Base64.encode key ∧
      upToQuote ((rangeRequest (Base64.encode key) (Base64.encode rangeEnd)).drop
        (openKey.length + (Base64.encode key).length + rangeEndText.length)) =
          Base64.encode rangeEnd := by
  constructor
  · have htext : text "\",\"range_end\":\"" = quote :: rangeEndText.tail := requests_eq.2.2.1
    rw [rangeRequest, List.drop_left, htext]
    exact upToQuote_encode key _
  · rw [rangeRequest, ← List.drop_drop, ← List.drop_drop, List.drop_left, List.drop_left]
    have hrest : (text "\",\"range_end\":\"" ++ (Base64.encode rangeEnd ++ text "\"\x7d")).drop
        rangeEndText.length = Base64.encode rangeEnd ++ text "\"\x7d" := List.drop_left
    rw [hrest, requests_eq.2.2.2]
    exact upToQuote_encode rangeEnd _

theorem keyStore_stores : Stores keyStore fun keys key => key ∈ keys where
  grant keys ttlSeconds key := by simp [keyStore]
  put keys key leaseId _ key' := by
    simp only [keyStore, if_neg requests_eq.1.1, if_true, upToQuote_put, base64Decode_encode,
      List.mem_cons]
  range keys key rangeEnd := by
    obtain ⟨-, hgrant, hput⟩ := requests_eq.1
    obtain ⟨hkey, hrangeEnd⟩ := upToQuote_range key rangeEnd
    refine ⟨(keys.filter fun k => key ≤ k ∧ (rangeEnd = [0] ∨ k < rangeEnd)).dedup,
      List.nodup_dedup _, fun k => by simp, ?_⟩
    simp only [keyStore, if_neg hgrant, if_neg hput, hkey, hrangeEnd, base64Decode_encode]
    exact listed_listAnswer _

/-- Two names on one server. -/
def twoNames (first second : String) : List Registration :=
  [⟨0, text first, text "10.0.0.1:80", 10⟩, ⟨1, text second, text "10.0.0.2:80", 10⟩]

theorem twoNames_valid (first second : String) :
    ∀ c ∈ twoNames first second, ValidAddress c.addr := by
  have hone : ValidAddress (text "10.0.0.1:80") :=
    ⟨⟨10, 0, 0, 1⟩, text "80", by decide +kernel, by decide +kernel, by decide +kernel,
      by decide +kernel⟩
  have htwo : ValidAddress (text "10.0.0.2:80") :=
    ⟨⟨10, 0, 0, 2⟩, text "80", by decide +kernel, by decide +kernel, by decide +kernel,
      by decide +kernel⟩
  intro c hc
  rcases List.mem_cons.mp hc with rfl | hc
  · exact hone
  · rw [List.mem_singleton.mp hc]
    exact htwo

theorem discover_finds_iff_two :
    ∃ registries s, registerAll keyStore (twoNames "a" "b") (fun _ => {}) [] =
        some (registries, s) ∧
      Finds (twoNames "a" "b") (text "a") (discover keyStore (text "a") s).1 := by
  have hrun : (registerAll keyStore (twoNames "a" "b") (fun _ => {}) []).isSome = true := by
    decide +kernel
  obtain ⟨⟨registries, s⟩, hs⟩ := Option.isSome_iff_exists.mp hrun
  refine ⟨registries, s, hs, (discover_finds_iff keyStore _ keyStore_stores _ _ _ _ _
    (by simp) (twoNames_valid "a" "b") hs (text "a")).mpr ?_⟩
  decide +kernel

/-- Who discovers `a` also gets an address for `a/b`. -/
theorem discover_finds_below :
    ¬ ∀ (σ : Type) (e : Etcd σ) (keys : σ → Bytes → Prop), Stores e keys →
      ∀ (calls : List Registration) (registries registries' : Nat → EtcdRegistry) (s s' : σ),
        (∀ key, ¬ keys s key) → (∀ c ∈ calls, ValidAddress c.addr) →
          registerAll e calls registries s = some (registries', s') →
            ∀ n, Finds calls n (discover e n s').1 := by
  intro hclaim
  have hrun : (registerAll keyStore (twoNames "a" "a/b") (fun _ => {}) []).isSome = true := by
    decide +kernel
  obtain ⟨⟨registries, s⟩, hs⟩ := Option.isSome_iff_exists.mp hrun
  obtain ⟨addrs, haddrs, hmem, heq⟩ := hclaim _ keyStore _ keyStore_stores (twoNames "a" "a/b")
    _ registries [] s (by simp) (twoNames_valid "a" "a/b") hs (text "a")
  have hsubset : addrs ⊆ [text "10.0.0.1:80"] := by
    intro a ha
    obtain ⟨c, hc, hname, rfl⟩ := (hmem a).mp ha
    rcases List.mem_cons.mp hc with rfl | hc
    · exact List.mem_singleton_self _
    · rw [List.mem_singleton.mp hc] at hname
      exact absurd hname (by decide +kernel)
  -- the keys of both names are found
  obtain ⟨found, -, hfound, hmap⟩ := discover_found keyStore_stores (text "a") s
  have hkeys : (twoNames "a" "a/b").map (fun c => serviceKey c.name c.addr) ⊆ found := by
    intro key hkey
    obtain ⟨c, hc, rfl⟩ := List.mem_map.mp hkey
    refine (hfound _).mpr ⟨(registerAll_keys keyStore_stores hs _).mpr (Or.inl ⟨c, hc, rfl⟩), ?_⟩
    have hbelow : ∀ c ∈ twoNames "a" "a/b",
        namePrefix (text "a") <+: serviceKey c.name c.addr := by decide +kernel
    exact hbelow c hc
  have hnodup : ((twoNames "a" "a/b").map fun c => serviceKey c.name c.addr).Nodup := by
    decide +kernel
  have htwo := (hnodup.subperm hkeys).length_le
  have hle := (haddrs.subperm hsubset).length_le
  have hlength := congrArg List.length (hmap.symm.trans heq)
  rw [List.length_map, List.length_map] at hlength
  rw [List.length_map] at htwo
  simp only [twoNames, List.length_cons, List.length_nil] at htwo hle hlength
  omega

end RocketRpc.Registry
