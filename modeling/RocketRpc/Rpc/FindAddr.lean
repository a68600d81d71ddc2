import RocketRpc.Tcp.NetAddr

/-
  Which texts are addresses (`IPNetAddr::checkValid`, `RpcChannel::FindAddr`).

  An `Address` is an ip that `inet_pton` takes, a colon and the digits of a port. `checkValid`
  reads the ip up to its first zero, and `std::from_chars` the port up to its first character
  that is no digit; what is behind either of them is not looked at. A text is recognised for what
  it is unless something is there (`recognized_iff`).
-/

namespace RocketRpc.Rpc

open RocketRpc.Tcp TextSearch

/-- `RpcChannel::FindAddr`, with the stubs of the configuration. -/
def findAddr (rpcStubs : Bytes → Option IPNetAddr) (str : Bytes) : Option IPNetAddr :=
  if IPNetAddr.checkValid str then some (IPNetAddr.ofText str) else rpcStubs str

/-- An ip, a colon and the digits of a port. -/
def Address (addr : Bytes) (a : InAddr) (n : Nat) : Prop :=
  ∃ ip port, addr = ip ++ colon :: port ∧ inetPton ip = some a ∧ IsPort port ∧ natOf port = n

/-- A text is taken for an address if and only if it is one, and then for that one. -/
def Recognized (addr : Bytes) : Prop :=
  (IPNetAddr.checkValid addr = true ↔ ∃ a n, Address addr a n) ∧
    (∀ a n, Address addr a n → IPNetAddr.ofText addr = ⟨a, UInt16.ofNat n⟩) ∧
    ∀ rpcStubs, (∀ a n, ¬ Address addr a n) → findAddr rpcStubs addr = rpcStubs addr

/-- Something is left of the ip from a zero on, or of the port from a character on that is no
    digit. -/
def Trailing (addr : Bytes) : Prop :=
  ∃ ip junk port rest, addr = ip ++ junk ++ colon :: (port ++ rest) ∧
    (inetPton ip).isSome = true ∧ IsPort port ∧
    (∀ c ∈ junk.head?, c = 0) ∧ colon ∉ junk ∧ (∀ c ∈ rest.head?, isDigit c = false) ∧
    (junk ≠ [] ∨ rest ≠ [])

/-! ## The text of an ip -/

theorem octet_digits {s : Bytes} {n : UInt8} (h : octet s = some n) :
    ∀ c ∈ s, isDigit c = true := by
  rw [octet] at h
  split at h
  · rename_i hs
    exact fun c hc => List.all_eq_true.mp hs.2.1 c hc
  · exact absurd h (by simp)

theorem inetPton_chars {ip : Bytes} {a : InAddr} (h : inetPton ip = some a) :
    ∀ c ∈ ip, isDigit c = true ∨ c = dot := by
  rw [inetPton] at h
  split at h
  · rename_i s₀ s₁ s₂ s₃ hsplit
    obtain ⟨n₀, h₀, h⟩ := Option.bind_eq_some_iff.mp h
    obtain ⟨n₁, h₁, h⟩ := Option.bind_eq_some_iff.mp h
    obtain ⟨n₂, h₂, h⟩ := Option.bind_eq_some_iff.mp h
    obtain ⟨n₃, h₃, -⟩ := Option.bind_eq_some_iff.mp h
    have hip : ip = s₀ ++ dot :: (s₁ ++ dot :: (s₂ ++ dot :: s₃)) := by
      have hjoin : [dot].intercalate (ip.splitOn dot) = ip := List.intercalate_splitOn dot
      rw [← hjoin, hsplit]
      simp [List.intercalate]
    intro c hc
    rw [hip] at hc
    simp only [List.mem_append, List.mem_cons] at hc
    rcases hc with hc | hc | hc | hc | hc | hc | hc
    · exact Or.inl (octet_digits h₀ c hc)
    · exact Or.inr hc
    · exact Or.inl (octet_digits h₁ c hc)
    · exact Or.inr hc
    · exact Or.inl (octet_digits h₂ c hc)
    · exact Or.inr hc
    · exact Or.inl (octet_digits h₃ c hc)
  · exact absurd h (by simp)

theorem not_mem_of_inetPton {ip : Bytes} {a : InAddr} (h : inetPton ip = some a) {x : UInt8}
    (hx : isDigit x = false) (hdot : x ≠ dot) : x ∉ ip := by
  intro hmem
  rcases inetPton_chars h x hmem with hdigit | heq
  · exact absurd (hx.symm.trans hdigit) (by simp)
  · exact hdot heq

/-- What is behind a text that is all of a kind, and starts with another character. -/
theorem takeWhile_behind {p : UInt8 → Bool} {u v : Bytes} (hu : ∀ c ∈ u, p c = true)
    (hv : ∀ c ∈ v.head?, p c = false) : (u ++ v).takeWhile p = u := by
  rw [List.takeWhile_append_of_pos hu]
  cases v with
  | nil => simp
  | cons c v => simp [hv c rfl]

theorem parseIpv4_append {ip junk : Bytes} {a : InAddr} (h : inetPton ip = some a)
    (hjunk : ∀ c ∈ junk.head?, c = 0) : parseIpv4 (ip ++ junk) = some a := by
  have hzero : (0 : UInt8) ∉ ip := not_mem_of_inetPton h (by decide) (by decide)
  rw [parseIpv4, takeWhile_behind, h]
  · exact fun c hc => decide_eq_true fun heq => hzero (heq ▸ hc)
  · exact fun c hc => by simp [hjunk c hc]

theorem head?_dropWhile {p : UInt8 → Bool} (s : Bytes) :
    ∀ c ∈ (s.dropWhile p).head?, p c = false := by
  intro c hc
  have hne : s.dropWhile p ≠ [] := by
    intro hnil
    rw [hnil] at hc
    exact absurd hc (by simp)
  obtain rfl := Option.some.inj ((List.head?_eq_some_head hne).symm.trans hc)
  exact Bool.not_eq_true _ ▸ List.head_dropWhile_not p hne

/-! ## What is taken for an address -/

/-- A text that is taken is an ip and a port, with something behind them or not. -/
theorem parts_of_checkValid {addr : Bytes} (h : IPNetAddr.checkValid addr = true) :
    (∃ a n, Address addr a n) ∨ Trailing addr := by
  by_cases hcolon : colon ∈ addr
  · obtain ⟨u, v, rfl, hu⟩ := List.eq_append_cons_of_mem hcolon
    obtain ⟨hip, hport⟩ := (checkValid_append hu).mp h
    obtain ⟨a, ha⟩ := Option.isSome_iff_exists.mp hip
    have hsplit := List.takeWhile_append_dropWhile (p := (· ≠ 0)) (l := u)
    have hsplit' := List.takeWhile_append_dropWhile (p := isDigit) (l := v)
    by_cases hbehind : u.dropWhile (· ≠ 0) = [] ∧ v.dropWhile isDigit = []
    · rw [hbehind.1, List.append_nil] at hsplit
      rw [hbehind.2, List.append_nil] at hsplit'
      rw [parseIpv4, hsplit] at ha
      rw [hsplit'] at hport
      exact Or.inl ⟨a, natOf v, u, v, rfl, ha, hport, rfl⟩
    · refine Or.inr ⟨u.takeWhile (· ≠ 0), u.dropWhile (· ≠ 0), v.takeWhile isDigit,
        v.dropWhile isDigit, ?_, hip, hport, fun c hc => ?_, fun hmem => ?_,
        head?_dropWhile v, not_and_or.mp hbehind⟩
      · rw [hsplit, hsplit']
      · simpa using head?_dropWhile u c hc
      · exact hu ((List.dropWhile_suffix _).subset hmem)
  · have hnone : search [colon] addr = none :=
      search_eq_none fun hin => hcolon (hin.subset List.mem_cons_self)
    rw [IPNetAddr.checkValid, hnone] at h
    exact absurd h (by simp)

theorem checkValid_of_trailing {addr : Bytes} (h : Trailing addr) :
    IPNetAddr.checkValid addr = true := by
  obtain ⟨ip, junk, port, rest, rfl, hip, hport, hjunk, hcolon, hrest, -⟩ := h
  obtain ⟨a, ha⟩ := Option.isSome_iff_exists.mp hip
  have hnot : colon ∉ ip ++ junk := by
    rw [List.mem_append, not_or]
    exact ⟨not_mem_of_inetPton ha (by decide) (by decide), hcolon⟩
  rw [checkValid_append hnot, parseIpv4_append ha hjunk, takeWhile_behind hport.1 hrest]
  exact ⟨rfl, hport⟩

theorem address_taken {addr : Bytes} {a : InAddr} {n : Nat} (h : Address addr a n) :
    IPNetAddr.checkValid addr = true ∧ IPNetAddr.ofText addr = ⟨a, UInt16.ofNat n⟩ := by
  obtain ⟨ip, port, rfl, hip, hport, rfl⟩ := h
  have hcolon : colon ∉ ip := not_mem_of_inetPton hip (by decide) (by decide)
  have hall := takeWhile_digits hport.1
  have hparse : parseIpv4 ip = some a := by
    simpa using @parseIpv4_append ip [] a hip (by simp)
  rw [checkValid_append hcolon, ofText_append hcolon hparse (hall.symm ▸ hport), hall]
  exact ⟨⟨hparse ▸ rfl, hport⟩, rfl⟩

/-- What is left behind an ip or a port is not part of an address. -/
theorem not_address_of_trailing {addr : Bytes} (h : Trailing addr) (a : InAddr) (n : Nat) :
    ¬ Address addr a n := by
  obtain ⟨ip, junk, port, rest, rfl, hip, -, hjunk, hcolon, hrest, hsome⟩ := h
  rintro ⟨ip', port', heq, hip', hport', -⟩
  obtain ⟨b, hb⟩ := Option.isSome_iff_exists.mp hip
  have hnot : colon ∉ ip ++ junk := by
    rw [List.mem_append, not_or]
    exact ⟨not_mem_of_inetPton hb (by decide) (by decide), hcolon⟩
  have hnot' : colon ∉ ip' := not_mem_of_inetPton hip' (by decide) (by decide)
  have hpre : ip ++ junk ++ colon :: (port ++ rest) <+: ip' ++ colon :: port' := by rw [heq]
  obtain ⟨rfl, -⟩ := delimited_eq hnot hnot' hpre
  obtain rfl : port ++ rest = port' := by simpa using heq
  rcases hsome with hne | hne
  · obtain ⟨c, junk, rfl⟩ := List.exists_cons_of_ne_nil hne
    obtain rfl := hjunk c rfl
    exact not_mem_of_inetPton hip' (by decide) (by decide) (by simp : (0 : UInt8) ∈ _)
  · obtain ⟨c, rest, rfl⟩ := List.exists_cons_of_ne_nil hne
    have hdigit := hport'.1 c (by simp)
    exact absurd ((hrest c rfl).symm.trans hdigit) (by simp)

/-- A text is recognised for what it is if and only if nothing is left behind its ip or its
    port. -/
theorem recognized_iff (addr : Bytes) : Recognized addr ↔ ¬ Trailing addr := by
  constructor
  · intro h htrailing
    obtain ⟨a, n, haddress⟩ := h.1.mp (checkValid_of_trailing htrailing)
    exact not_address_of_trailing htrailing a n haddress
  · intro hnot
    have hvalid : IPNetAddr.checkValid addr = true → ∃ a n, Address addr a n :=
      fun h => (parts_of_checkValid h).resolve_right hnot
    refine ⟨⟨hvalid, fun ⟨a, n, h⟩ => (address_taken h).1⟩, fun a n h => (address_taken h).2,
      fun rpcStubs hno => ?_⟩
    have hinvalid : ¬ IPNetAddr.checkValid addr = true := fun h =>
      (hvalid h).elim fun a ⟨n, haddress⟩ => hno a n haddress
    rw [findAddr, if_neg hinvalid]

/-- `1.2.3.4:80abc` is taken for the address `1.2.3.4:80`. -/
theorem trailing_port : ¬ ∀ addr : Bytes, Recognized addr := by
  intro hclaim
  have htrailing : Trailing "1.2.3.4:80abc".toUTF8.toList :=
    ⟨"1.2.3.4".toUTF8.toList, [], "80".toUTF8.toList, "abc".toUTF8.toList, by decide +kernel,
      by decide +kernel, ⟨by decide +kernel, by decide +kernel, by decide +kernel⟩, by simp,
      by simp, by decide +kernel, Or.inr (by decide +kernel)⟩
  exact (recognized_iff _).mp (hclaim _) htrailing

end RocketRpc.Rpc
