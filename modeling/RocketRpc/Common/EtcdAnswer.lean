import RocketRpc.Common.EtcdRegistry
import RocketRpc.Lib.Base64
import Mathlib.Algebra.Group.Nat.Defs

/-
  What the registry reads of an answer of etcd.

  `base64Encode` writes base64, and `base64Decode` reads it back. `Listed keys rsp` says that an
  answer lists these keys, each as a compact object with its text in base64 first; `readKeys`
  finds them and no others (`readAnswer_listed`).
-/

namespace RocketRpc.Registry

open RocketRpc.Tcp TextSearch

/-! ## Base64 -/

section

variable (a b c : UInt8)

theorem shift_or {x y k : Nat} (h : y < 2 ^ k) : x <<< k ||| y = x * 2 ^ k + y := by
  rw [← Nat.shiftLeft_add_eq_or_of_lt h, Nat.shiftLeft_eq]

theorem bits₀ : a.toNat >>> 2 = Base64.group a b c / 262144 := by
  have ha := a.toNat_lt
  have hb := b.toNat_lt
  have hc := c.toNat_lt
  rw [Nat.shiftRight_eq_div_pow, Base64.group]
  omega

theorem bits₁ : (a.toNat &&& 3) <<< 4 ||| b.toNat >>> 4 = Base64.group a b c / 4096 % 64 := by
  have ha := a.toNat_lt
  have hb := b.toNat_lt
  have hc := c.toNat_lt
  have hhigh : b.toNat >>> 4 = b.toNat / 16 := Nat.shiftRight_eq_div_pow _ _
  have hlow : a.toNat &&& 3 = a.toNat % 4 := Nat.and_two_pow_sub_one_eq_mod _ 2
  rw [hhigh, hlow, shift_or (by omega), Base64.group]
  omega

theorem bits₂ : (b.toNat &&& 15) <<< 2 ||| c.toNat >>> 6 = Base64.group a b c / 64 % 64 := by
  have ha := a.toNat_lt
  have hb := b.toNat_lt
  have hc := c.toNat_lt
  have hhigh : c.toNat >>> 6 = c.toNat / 64 := Nat.shiftRight_eq_div_pow _ _
  have hlow : b.toNat &&& 15 = b.toNat % 16 := Nat.and_two_pow_sub_one_eq_mod _ 4
  rw [hhigh, hlow, shift_or (by omega), Base64.group]
  omega

theorem bits₃ : c.toNat &&& 63 = Base64.group a b c % 64 := by
  have hc := c.toNat_lt
  have hlow : c.toNat &&& 63 = c.toNat % 64 := Nat.and_two_pow_sub_one_eq_mod _ 6
  rw [hlow, Base64.group]
  omega

end

/-- `base64Encode` writes base64. -/
theorem base64Encode_eq (data : Bytes) : base64Encode data = Base64.encode data := by
  induction data using Base64.encode.induct with
  | case1 => rw [base64Encode, Base64.encode]
  | case2 a =>
    have h₁ := bits₁ a 0 0
    rw [base64Encode, Base64.encode]
    simp only [List.drop_nil, List.getD_nil, bits₀ a 0 0, h₁, base64Encode]
    rfl
  | case3 a b =>
    have h₁ := bits₁ a b 0
    have h₂ := bits₂ a b 0
    rw [base64Encode, Base64.encode]
    simp only [List.getD_cons_zero, List.getD_cons_succ, List.getD_nil, List.drop_succ_cons,
      List.drop_nil, bits₀ a b 0, h₁, h₂, base64Encode]
    rfl
  | case4 a b c data ih =>
    rw [base64Encode, Base64.encode]
    simp only [List.getD_cons_zero, List.getD_cons_succ, List.drop_succ_cons, List.drop_zero,
      bits₀ a b c, bits₁ a b c, bits₂ a b c, bits₃ a b c, ih, List.length_cons]
    rw [if_pos (by omega), if_pos (by omega)]
    rfl

theorem decodeTable_digit {n : Nat} (h : n < 64) : decodeTable (Base64.digit n) = n := by
  have hmem : Base64.digit n ∈ kBase64Table := Base64.digit_mem h
  rw [decodeTable, if_pos hmem]
  exact Base64.idxOf_digit h

section

variable (a b c : UInt8)

theorem value₀ :
    decodeTable (Base64.digit₀ (Base64.group a b c)) = Base64.group a b c / 262144 := by
  have hlt := Base64.group_lt a b c
  exact decodeTable_digit (by omega)

theorem value₁ (n : Nat) : decodeTable (Base64.digit₁ n) = n / 4096 % 64 :=
  decodeTable_digit (Nat.mod_lt _ (by decide))

theorem value₂ (n : Nat) : decodeTable (Base64.digit₂ n) = n / 64 % 64 :=
  decodeTable_digit (Nat.mod_lt _ (by decide))

theorem value₃ (n : Nat) : decodeTable (Base64.digit₃ n) = n % 64 :=
  decodeTable_digit (Nat.mod_lt _ (by decide))

theorem byte₀ : UInt8.ofNat ((Base64.group a b c / 262144) <<< 2 |||
    (Base64.group a b c / 4096 % 64) >>> 4) = a := by
  have ha := a.toNat_lt
  have hb := b.toNat_lt
  have hc := c.toNat_lt
  rw [Nat.shiftRight_eq_div_pow, shift_or (by omega), Base64.group]
  apply UInt8.toNat_inj.mp
  rw [UInt8.toNat_ofNat']
  omega

theorem byte₁ : UInt8.ofNat ((Base64.group a b c / 4096 % 64) <<< 4 |||
    (Base64.group a b c / 64 % 64) >>> 2) = b := by
  have ha := a.toNat_lt
  have hb := b.toNat_lt
  have hc := c.toNat_lt
  rw [Nat.shiftRight_eq_div_pow, shift_or (by omega), Base64.group]
  apply UInt8.toNat_inj.mp
  rw [UInt8.toNat_ofNat']
  omega

theorem byte₂ : UInt8.ofNat ((Base64.group a b c / 64 % 64) <<< 6 |||
    Base64.group a b c % 64) = c := by
  have hc := c.toNat_lt
  rw [shift_or (by omega), Base64.group]
  apply UInt8.toNat_inj.mp
  rw [UInt8.toNat_ofNat']
  omega

end

theorem digit₂_ne (n : Nat) : Base64.digit₂ n ≠ equalsSign :=
  Base64.digit_ne_pad (Nat.mod_lt _ (by decide))

theorem digit₃_ne (n : Nat) : Base64.digit₃ n ≠ equalsSign :=
  Base64.digit_ne_pad (Nat.mod_lt _ (by decide))

/-- `base64Decode` reads base64 back. -/
theorem base64Decode_encode (data : Bytes) : base64Decode (Base64.encode data) = data := by
  have hpad : Base64.pad = equalsSign := rfl
  induction data using Base64.encode.induct with
  | case1 => rw [Base64.encode, base64Decode]
  | case2 a =>
    rw [Base64.encode, base64Decode]
    simp only [List.getD_cons_zero, List.getD_cons_succ, List.drop_succ_cons, List.drop_nil,
      value₀, value₁, byte₀, hpad, base64Decode]
    rfl
  | case3 a b =>
    rw [Base64.encode, base64Decode]
    simp only [List.getD_cons_zero, List.getD_cons_succ, List.drop_succ_cons, List.drop_zero,
      value₀, value₁, value₂, byte₀, byte₁, hpad, base64Decode, if_pos (digit₂_ne _)]
    rfl
  | case4 a b c data ih =>
    rw [Base64.encode, base64Decode]
    simp only [List.getD_cons_zero, List.getD_cons_succ, List.drop_succ_cons, List.drop_zero,
      value₀, value₁, value₂, value₃, byte₀, byte₁, byte₂, if_pos (digit₂_ne _),
      if_pos (digit₃_ne _), ih]
    rfl

theorem base64Encode_inj {a b : Bytes} (h : base64Encode a = base64Encode b) : a = b := by
  rw [base64Encode_eq, base64Encode_eq] at h
  rw [← base64Decode_encode a, h, base64Decode_encode]

/-- What `base64Encode` writes is read back. It has four characters for every three bytes, with
    the last three filled up: of the table, but for at most two equals signs at the end. -/
theorem base64_round_trip (data : Bytes) :
    base64Decode (base64Encode data) = data ∧
      (base64Encode data).length = 4 * ((data.length + 2) / 3) ∧
      ∃ digits k, base64Encode data = digits ++ List.replicate k equalsSign ∧ k ≤ 2 ∧
        ∀ c ∈ digits, c ∈ kBase64Table := by
  rw [base64Encode_eq]
  exact ⟨base64Decode_encode data, Base64.length_encode data, Base64.encode_shape data⟩

/-! ## Listings -/

def comma : UInt8 := 44

def openBrace : UInt8 := 123

def closeBrace : UInt8 := 125

def closeBracket : UInt8 := 93

def keyName : Bytes := text "key"

/-- A field behind another one, with a text for its value. -/
def fieldText (name value : Bytes) : Bytes :=
  comma :: quote :: (name ++ (quote :: colon :: quote :: (value ++ [quote])))

/-- What is listed of a key. -/
structure Entry where
  key : Bytes
  others : List (Bytes × Bytes)

/-- The compact object of a key, which comes first. -/
def Entry.text (e : Entry) : Bytes :=
  openBrace :: (keyPattern ++ (Base64.encode e.key ++ quote ::
    (e.others.flatMap (fun f => fieldText f.1 f.2) ++ [closeBrace])))

/-- The other fields have other names, and there is no quote in any of them. -/
def Entry.Plain (e : Entry) : Prop :=
  ∀ f ∈ e.others, quote ∉ f.1 ∧ quote ∉ f.2 ∧ f.1 ≠ keyName

def listText : List Entry → Bytes
  | [] => []
  | [e] => e.text
  | e :: es => e.text ++ comma :: listText es

/-- An answer lists these keys under `"kvs"`, or does not have that if there are none. -/
inductive Listed (keys : List Bytes) (rsp : Bytes) : Prop
  | nothing : keys = [] → ¬ kvsPattern <:+: rsp → Listed keys rsp
  | entries (before after : Bytes) (es : List Entry) : keys = es.map Entry.key →
      (∀ e ∈ es, e.Plain) → ¬ kvsPattern <:+: before ++ kvsPattern.dropLast →
      ¬ keyPattern <:+: after →
      rsp = before ++ (kvsPattern ++ (Registry.text ":[" ++
        (listText es ++ closeBracket :: after))) → Listed keys rsp

/-- The names that an answer is searched for, in their quotes. -/
theorem names_eq :
    keyName = [107, 101, 121] ∧ keyPattern = quote :: (keyName ++ quote :: [colon, quote]) ∧
      kvsPattern = quote :: ([107, 118, 115] ++ [quote]) ∧ text ":[" = [colon, 91] ∧
      quote ∉ Base64.alphabet := by
  decide +kernel

theorem keyName_eq : keyName = [107, 101, 121] := names_eq.1

theorem keyPattern_eq : keyPattern = quote :: (keyName ++ quote :: [colon, quote]) := names_eq.2.1

theorem kvsPattern_eq : kvsPattern = quote :: ([107, 118, 115] ++ [quote]) := names_eq.2.2.1

theorem quote_not_mem_keyName : quote ∉ keyName := by
  rw [keyName_eq]
  decide

theorem quote_not_mem_encode (data : Bytes) : quote ∉ Base64.encode data :=
  Base64.not_mem_encode names_eq.2.2.2.2 (by decide) data

theorem not_keyPattern_of_ne {x : UInt8} (hx : x ≠ quote) (w : Bytes) :
    ¬ keyPattern <+: x :: w := by
  rw [keyPattern_eq]
  exact fun h => hx (List.cons_prefix_cons.mp h).1.symm

/-- A quote that ends a text. -/
theorem not_keyPattern_behind {w : Bytes} (hw : w.head? ≠ some 107) :
    ¬ keyPattern <+: quote :: w := by
  rw [keyPattern_eq, keyName_eq]
  intro h
  cases w with
  | nil => exact absurd h (by simp)
  | cons x w => exact hw (by rw [(List.cons_prefix_cons.mp (List.cons_prefix_cons.mp h).2).1]; rfl)

/-- A quote that starts a text. -/
theorem keyPattern_at_text {a w : Bytes} (ha : quote ∉ a)
    (h : keyPattern <+: quote :: (a ++ quote :: w)) : a = keyName ∧ [colon, quote] <+: w := by
  rw [keyPattern_eq] at h
  obtain ⟨heq, hrest⟩ := delimited_eq quote_not_mem_keyName ha (List.cons_prefix_cons.mp h).2
  exact ⟨heq.symm, hrest⟩

theorem absent_keyPattern {u : Bytes} (h : quote ∉ u) (v : Bytes) : Absent keyPattern u v := by
  rw [keyPattern_eq]
  exact absent_of_not_mem h v

/-- A field with another name. -/
theorem field_absent {name value w : Bytes} (hname : quote ∉ name) (hvalue : quote ∉ value)
    (hne : name ≠ keyName) (hcolon : w.head? ≠ some colon) (hk : w.head? ≠ some 107) :
    Absent keyPattern (fieldText name value) w := by
  refine ⟨not_keyPattern_of_ne (by decide) _, ?_, (absent_keyPattern hname _).append
    ⟨not_keyPattern_behind (by simp [colon]), not_keyPattern_of_ne (by decide) _, ?_,
      (absent_keyPattern hvalue _).append ⟨not_keyPattern_behind ?_, trivial⟩⟩⟩
  · rw [List.append_assoc]
    exact fun h => hne (keyPattern_at_text hname h).1
  · rw [List.append_assoc]
    intro h
    obtain ⟨-, hrest⟩ := keyPattern_at_text hvalue h
    cases w with
    | nil => exact absurd hrest (by simp)
    | cons x w => exact hcolon (by rw [← (List.cons_prefix_cons.mp hrest).1]; rfl)
  · exact hk

theorem fields_absent {others : List (Bytes × Bytes)}
    (h : ∀ f ∈ others, quote ∉ f.1 ∧ quote ∉ f.2 ∧ f.1 ≠ keyName) (w : Bytes) :
    Absent keyPattern (others.flatMap fun f => fieldText f.1 f.2) (closeBrace :: w) := by
  induction others with
  | nil => trivial
  | cons f others ih =>
    obtain ⟨hname, hvalue, hne⟩ := h f List.mem_cons_self
    rw [List.flatMap_cons]
    refine (field_absent hname hvalue hne ?_ ?_).append
      (ih fun g hg => h g (List.mem_cons_of_mem _ hg))
    · cases others <;> simp [fieldText, comma, closeBrace, colon]
    · cases others <;> simp [fieldText, comma, closeBrace]

/-! ## Reading -/

/-- The loop of `discover`, one occurrence after another. -/
theorem readKeys_eq (pre sv : Bytes) :
    readKeys pre sv =
      match search keyPattern sv with
      | none => []
      | some pos =>
        match search [quote] (sv.drop (pos + 7)) with
        | none => []
        | some stop =>
          if pre.isPrefixOf (base64Decode ((sv.drop (pos + 7)).take stop)) then
            IPNetAddr.ofText ((base64Decode ((sv.drop (pos + 7)).take stop)).drop pre.length) ::
              readKeys pre ((sv.drop (pos + 7)).drop (stop + 1))
          else readKeys pre ((sv.drop (pos + 7)).drop (stop + 1)) := by
  rw [readKeys]
  cases search keyPattern sv with
  | none => rfl
  | some pos =>
    dsimp only
    split
    · rename_i hstop
      rw [hstop]
    · rename_i stop hstop
      rw [hstop]

theorem readKeys_none {pre sv : Bytes} (h : search keyPattern sv = none) :
    readKeys pre sv = [] := by
  rw [readKeys_eq, h]

theorem readKeys_absent {u v : Bytes} (h : Absent keyPattern u v) (pre : Bytes) :
    readKeys pre (u ++ v) = readKeys pre v := by
  rw [readKeys_eq, readKeys_eq pre v, search_append h]
  cases search keyPattern v with
  | none => rfl
  | some pos =>
    have hdrop : (u ++ v).drop (pos + u.length + 7) = v.drop (pos + 7) := by
      rw [show pos + u.length + 7 = u.length + (pos + 7) by omega, ← List.drop_drop,
        List.drop_left]
    simp only [Option.map_some, hdrop]

theorem readKeys_cons {x : UInt8} (hx : x ≠ quote) (pre w : Bytes) :
    readKeys pre (x :: w) = readKeys pre w :=
  @readKeys_absent [x] w ⟨not_keyPattern_of_ne hx _, trivial⟩ pre

/-- A key that is listed. -/
theorem readKeys_key (pre key v : Bytes) :
    readKeys pre (keyPattern ++ (Base64.encode key ++ quote :: v)) =
      if pre.isPrefixOf key then IPNetAddr.ofText (key.drop pre.length) :: readKeys pre v
      else readKeys pre v := by
  have hkey : search keyPattern (keyPattern ++ (Base64.encode key ++ quote :: v)) = some 0 :=
    search_eq_zero (List.prefix_append _ _)
  have hlength : keyPattern.length = 7 := by
    rw [keyPattern_eq, keyName_eq]
    rfl
  have hdrop : (keyPattern ++ (Base64.encode key ++ quote :: v)).drop (0 + 7) =
      Base64.encode key ++ quote :: v := by
    rw [Nat.zero_add, ← hlength, List.drop_left]
  have hstop : search [quote] (Base64.encode key ++ quote :: v) =
      some (Base64.encode key).length := search_delimiter (quote_not_mem_encode key) v
  have hrest : (Base64.encode key ++ quote :: v).drop ((Base64.encode key).length + 1) = v := by
    rw [List.append_cons, List.drop_left' (by simp)]
  rw [readKeys_eq, hkey]
  dsimp only
  rw [hdrop, hstop]
  dsimp only
  rw [List.take_left, base64Decode_encode, hrest]

theorem readKeys_entry {e : Entry} (he : e.Plain) (pre w : Bytes) :
    readKeys pre (e.text ++ w) =
      if pre.isPrefixOf e.key then IPNetAddr.ofText (e.key.drop pre.length) :: readKeys pre w
      else readKeys pre w := by
  have hfields : readKeys pre (e.others.flatMap (fun f => fieldText f.1 f.2) ++ closeBrace :: w) =
      readKeys pre w := by
    rw [readKeys_absent (fields_absent he w), readKeys_cons (by decide)]
  have htext : e.text ++ w = openBrace :: (keyPattern ++ (Base64.encode e.key ++ quote ::
      (e.others.flatMap (fun f => fieldText f.1 f.2) ++ closeBrace :: w))) := by
    simp [Entry.text]
  rw [htext, readKeys_cons (by decide), readKeys_key, hfields]

/-- The keys of a list are read one after another. -/
theorem readKeys_list {es : List Entry} (hes : ∀ e ∈ es, e.Plain) {pre w : Bytes}
    (hw : readKeys pre w = []) :
    readKeys pre (listText es ++ w) =
      ((es.map Entry.key).filter fun key => pre.isPrefixOf key).map fun key =>
        IPNetAddr.ofText (key.drop pre.length) := by
  induction es with
  | nil => exact hw
  | cons e es ih =>
    have hrest := ih fun e' he' => hes e' (List.mem_cons_of_mem _ he')
    have hmore : readKeys pre (listText (e :: es) ++ w) =
        if pre.isPrefixOf e.key then
          IPNetAddr.ofText (e.key.drop pre.length) :: readKeys pre (listText es ++ w)
        else readKeys pre (listText es ++ w) := by
      cases es with
      | nil => exact readKeys_entry (hes e List.mem_cons_self) pre w
      | cons e' es =>
        rw [listText, List.append_assoc, List.cons_append,
          readKeys_entry (hes e List.mem_cons_self), readKeys_cons (by decide)]
        simp
    rw [hmore, hrest, List.map_cons, List.filter_cons]
    split <;> rfl

/-- The addresses that `discover` makes of an answer. -/
def readAnswer (pre rsp : Bytes) : List IPNetAddr :=
  match search kvsPattern rsp with
  | none => []
  | some pos => readKeys pre (rsp.drop pos)

/-- Of the keys that an answer lists, those with the prefix are read. -/
theorem readAnswer_listed {keys : List Bytes} {rsp : Bytes} (h : Listed keys rsp) (pre : Bytes) :
    readAnswer pre rsp = (keys.filter fun key => pre.isPrefixOf key).map fun key =>
      IPNetAddr.ofText (key.drop pre.length) := by
  cases h with
  | nothing hkeys hkvs => rw [readAnswer, search_eq_none hkvs, hkeys]; rfl
  | entries before after es hkeys hes hbefore hafter hrsp =>
    have hend : readKeys pre (closeBracket :: after) = [] := by
      rw [readKeys_cons (by decide)]
      exact readKeys_none (search_eq_none hafter)
    have hopen : readKeys pre (kvsPattern ++ (text ":[" ++
        (listText es ++ closeBracket :: after))) =
        readKeys pre (listText es ++ closeBracket :: after) := by
      have hname : quote ∉ [107, 118, 115] := by decide
      have hcolon : quote ∉ [colon, 91] := by decide
      have hhead : text ":[" = [colon, 91] := names_eq.2.2.2.1
      rw [hhead, readKeys_absent ?_ pre, readKeys_absent (absent_keyPattern hcolon _) pre]
      rw [kvsPattern_eq]
      refine ⟨fun hpre => ?_, (absent_keyPattern hname _).append ⟨?_, trivial⟩⟩
      · rw [List.append_assoc] at hpre
        have hne : [107, 118, 115] ≠ keyName := by
          rw [keyName_eq]
          decide
        exact hne (keyPattern_at_text hname hpre).1
      · exact not_keyPattern_behind (by simp [colon])
    have hfirst : search kvsPattern rsp = some before.length := by
      rw [hrsp, search_append (absent_before hbefore), search_eq_zero (List.prefix_append _ _)]
      simp
    rw [readAnswer, hfirst]
    dsimp only
    rw [hrsp, List.drop_left, hopen, readKeys_list hes hend, hkeys]

end RocketRpc.Registry
