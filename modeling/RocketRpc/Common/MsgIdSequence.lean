import RocketRpc.Common.MsgIdUtil
import RocketRpc.Lib.Counter
import RocketRpc.Lib.Numeral
import Mathlib.Data.Nat.Basic

/-
  The ids of a thread, one call of `GenMsgID` after another.

  An id is a numeral of twenty decimal digits, and `increment` writes the next one, for any number
  of nines at the end (`decimal_increment`). So a thread is a counter below `10 ^ 20` that starts
  again from what is drawn (`number_genMsgId`), and the ids from one draw to the next are
  consecutive numbers.
-/

namespace RocketRpc.Common

open RocketRpc.Tcp

/-! ## Decimal numbers -/

def digitValue (c : UInt8) : Nat := c.toNat - 48

/-- The number that a text of digits is. -/
def decimal (no : Bytes) : Nat := Numeral.value 10 digitValue no

def IsDigit (c : UInt8) : Prop := ∃ d, c = digit d

def nines : Bytes := List.replicate kMsgIdLength nine

theorem digitValue_digit : ∀ d : Fin 10, digitValue (digit d) = d := by decide

theorem digit_lt_digit : ∀ d e : Fin 10, digit d < digit e ↔ d < e := by decide

theorem digits_decimal : Numeral.Digits 10 digitValue {c | IsDigit c} where
  value_lt := by
    rintro _ ⟨d, rfl⟩
    rw [digitValue_digit]
    exact d.isLt
  injOn := by
    rintro _ ⟨d, rfl⟩ _ ⟨e, rfl⟩ h
    rw [digitValue_digit, digitValue_digit] at h
    rw [Fin.ext h]
  lt_iff := by
    rintro _ ⟨d, rfl⟩ _ ⟨e, rfl⟩
    rw [digitValue_digit, digitValue_digit, digit_lt_digit]
    rfl

theorem digitValue_succ : ∀ d : Fin 10, digit d ≠ nine →
    digitValue (digit d + 1) = digitValue (digit d) + 1 := by decide

/-! ## Counting up -/

/-- The loop skips the nines at the end. -/
theorem skipNines_carry (l : Bytes) {d : UInt8} (hd : d ≠ nine) (n : Nat) :
    ∀ k ≤ n, skipNines (l ++ d :: List.replicate n nine) (l.length + 1 + k) = l.length + 1 := by
  intro k
  induction k with
  | zero =>
    intro _
    have hat : (l ++ d :: List.replicate n nine)[l.length]? = some d := by simp
    rw [Nat.add_zero, skipNines, hat, if_neg fun h => hd (Option.some.inj h)]
  | succ k ih =>
    intro hk
    have hat : (l ++ d :: List.replicate n nine)[l.length + 1 + k]? = some nine := by
      rw [List.getElem?_append_right (by omega), show l.length + 1 + k - l.length = k + 1 by omega,
        List.getElem?_cons_succ, List.getElem?_replicate_of_lt (by omega)]
    rw [← Nat.add_assoc, skipNines, hat, if_pos rfl, ih (by omega)]

/-- `GenMsgID` counts up the digit in front of the nines at the end. -/
theorem increment_carry (l : Bytes) {d : UInt8} (hd : d ≠ nine) (n : Nat) :
    increment (l ++ d :: List.replicate n nine) =
      l ++ (d + 1) :: List.replicate n (digit 0) := by
  have hlength : (l ++ d :: List.replicate n nine).length = l.length + 1 + n := by
    simp only [List.length_append, List.length_cons, List.length_replicate]
    omega
  rw [increment, hlength, skipNines_carry l hd n n (Nat.le_refl n)]
  dsimp only
  refine List.ext_getElem (by simp) fun j hj _ => ?_
  rw [List.getElem_mapIdx]
  rcases Nat.lt_trichotomy j l.length with hlt | rfl | hgt
  · rw [if_neg (Nat.ne_of_lt hlt), if_neg (Nat.lt_asymm hlt), List.getElem_append_left hlt,
      List.getElem_append_left hlt]
  · simp
  · obtain ⟨i, rfl⟩ : ∃ i, j = l.length + (i + 1) := ⟨j - l.length - 1, by omega⟩
    rw [if_neg (Nat.ne_of_gt hgt), if_pos hgt]
    simp

/-- The next number, wherever the digit is that is counted up. -/
theorem decimal_increment {no : Bytes} (hno : ∀ c ∈ no, IsDigit c)
    (hne : no ≠ List.replicate no.length nine) : decimal (increment no) = decimal no + 1 := by
  obtain ⟨l, d, n, hd, rfl⟩ := (Numeral.eq_replicate_or_carry nine no).resolve_left hne
  obtain ⟨e, rfl⟩ := hno d (by simp)
  have hlast : digitValue nine + 1 = 10 := rfl
  have hzero : digitValue (digit 0) = 0 := rfl
  rw [increment_carry l hd]
  exact Numeral.value_carry hlast hzero (digitValue_succ e hd) l n

theorem IsMsgId.decimal_lt {no : Bytes} (h : IsMsgId no) : decimal no < 10 ^ kMsgIdLength := by
  rw [← h.1]
  exact Numeral.value_lt digits_decimal h.2

theorem decimal_nines : decimal nines + 1 = 10 ^ kMsgIdLength :=
  Numeral.value_replicate_last rfl kMsgIdLength

theorem IsMsgId.decimal_increment {no : Bytes} (h : IsMsgId no) (hne : no ≠ nines) :
    decimal (increment no) = decimal no + 1 :=
  Common.decimal_increment h.2 (by rwa [h.1])

/-- The greatest id is the one of nines. -/
theorem IsMsgId.eq_nines_iff {no : Bytes} (h : IsMsgId no) :
    no = nines ↔ decimal no + 1 = 10 ^ kMsgIdLength := by
  constructor
  · rintro rfl
    exact decimal_nines
  · intro hlast
    by_contra hne
    have hlt := (increment_isMsgId h).decimal_lt
    rw [h.decimal_increment hne, hlast] at hlt
    exact Nat.lt_irrefl _ hlt

theorem IsMsgId.lt_iff {a b : Bytes} (ha : IsMsgId a) (hb : IsMsgId b) :
    a < b ↔ decimal a < decimal b :=
  Numeral.lt_iff_value_lt digits_decimal ha.2 hb.2 (ha.1.trans hb.1.symm)

/-! ## A thread -/

/-- What a thread draws. -/
def drawn (dist : Fin kMsgIdLength → Fin 10) : Bytes := List.ofFn fun i => digit (dist i)

/-- `GenMsgID` draws: before the first id, and behind the greatest one. -/
def MsgIdUtil.Draws (u : MsgIdUtil) : Prop := u.msgIdNo = [] ∨ u.msgIdNo = u.maxMsgIdNo

instance (u : MsgIdUtil) : Decidable u.Draws := inferInstanceAs (Decidable (_ ∨ _))

/-- The variables that a thread can have. -/
inductive MsgIdUtil.Reached : MsgIdUtil → Prop
  | new : Reached {}
  | genMsgId {u : MsgIdUtil} (dist : Fin kMsgIdLength → Fin 10) :
      Reached u → Reached (u.genMsgId dist)

/-- The variables before call `n`; a call that draws gets `dists n`. -/
def MsgIdUtil.after (u : MsgIdUtil) (dists : Nat → Fin kMsgIdLength → Fin 10) : Nat → MsgIdUtil
  | 0 => u
  | n + 1 => (u.after dists n).genMsgId (dists n)

/-- The id that call `n` returns. -/
def MsgIdUtil.msgId (u : MsgIdUtil) (dists : Nat → Fin kMsgIdLength → Fin 10) (n : Nat) : Bytes :=
  (u.after dists (n + 1)).msgIdNo

/-- A thread as a counter. -/
def MsgIdUtil.number (u : MsgIdUtil) : Option Nat :=
  if u.msgIdNo = [] then none else some (decimal u.msgIdNo)

/-- There is no number before the first call, and one of twenty digits from then on. -/
inductive MsgIdUtil.Valid (u : MsgIdUtil) : Prop
  | new : u = {} → Valid u
  | counts : IsMsgId u.msgIdNo → u.maxMsgIdNo = nines → Valid u

theorem drawn_isMsgId (dist : Fin kMsgIdLength → Fin 10) : IsMsgId (drawn dist) :=
  @genMsgId_isMsgId {} (Or.inl rfl) dist

namespace MsgIdUtil

variable {u : MsgIdUtil}

theorem genMsgId_of_draws (h : u.Draws) (dist : Fin kMsgIdLength → Fin 10) :
    u.genMsgId dist =
      { maxMsgIdNo := if u.maxMsgIdNo.isEmpty then nines else u.maxMsgIdNo
        msgIdNo := drawn dist } := by
  have hcond : (u.msgIdNo.isEmpty || u.msgIdNo == u.maxMsgIdNo) = true := by
    simpa [Draws] using h
  rw [genMsgId, if_pos hcond]
  rfl

theorem genMsgId_of_not_draws (h : ¬ u.Draws) (dist : Fin kMsgIdLength → Fin 10) :
    u.genMsgId dist = { u with msgIdNo := increment u.msgIdNo } := by
  have hcond : ¬ (u.msgIdNo.isEmpty || u.msgIdNo == u.maxMsgIdNo) = true := by
    simpa [Draws] using h
  rw [genMsgId, if_neg hcond]

theorem number_eq_some (h : IsMsgId u.msgIdNo) : u.number = some (decimal u.msgIdNo) :=
  if_neg h.ne_nil

theorem Valid.genMsgId (hu : u.Valid) (dist : Fin kMsgIdLength → Fin 10) :
    IsMsgId (u.genMsgId dist).msgIdNo ∧ (u.genMsgId dist).maxMsgIdNo = nines := by
  cases hu with
  | new hnew =>
    subst hnew
    exact ⟨drawn_isMsgId dist, rfl⟩
  | counts hid hmax =>
    refine ⟨genMsgId_isMsgId (Or.inr hid) dist, ?_⟩
    by_cases hdraws : u.Draws
    · rw [genMsgId_of_draws hdraws, hmax]
      rfl
    · rw [genMsgId_of_not_draws hdraws, hmax]

theorem Reached.valid (hu : u.Reached) : u.Valid := by
  induction hu with
  | new => exact .new rfl
  | genMsgId dist _ ih =>
    obtain ⟨hid, hmax⟩ := ih.genMsgId dist
    exact .counts hid hmax

theorem Reached.after (hu : u.Reached) (dists : Nat → Fin kMsgIdLength → Fin 10) (n : Nat) :
    (u.after dists n).Reached := by
  induction n with
  | zero => exact hu
  | succ n ih => exact ih.genMsgId (dists n)

/-- Where the counter starts again. -/
theorem Valid.draws_iff (hu : u.Valid) :
    u.Draws ↔ Counter.Starts (10 ^ kMsgIdLength) u.number := by
  cases hu with
  | new hnew =>
    subst hnew
    exact iff_of_true (Or.inl rfl) trivial
  | counts hid hmax =>
    rw [Draws, or_iff_right hid.ne_nil, hmax, hid.eq_nines_iff, number_eq_some hid]
    rfl

/-- A call takes the counter to its next number. -/
theorem Valid.number_genMsgId (hu : u.Valid) (dist : Fin kMsgIdLength → Fin 10) :
    (u.genMsgId dist).number =
      some (Counter.next (10 ^ kMsgIdLength) (decimal (drawn dist)) u.number) := by
  rw [number_eq_some (hu.genMsgId dist).1]
  congr 1
  by_cases hdraws : u.Draws
  · rw [genMsgId_of_draws hdraws, Counter.next_of_starts (hu.draws_iff.mp hdraws)]
  · cases hu with
    | new hnew =>
      subst hnew
      exact absurd (Or.inl rfl) hdraws
    | counts hid hmax =>
      have hgo := mt (Valid.counts hid hmax).draws_iff.mpr hdraws
      rw [number_eq_some hid] at hgo ⊢
      rw [Counter.next_of_not_starts hgo, genMsgId_of_not_draws hdraws]
      refine hid.decimal_increment fun hlast => hdraws (Or.inr ?_)
      rw [hlast, hmax]

/-- The variables of a thread, call by call, are the numbers of a counter. -/
theorem Reached.number_after (hu : u.Reached) (dists : Nat → Fin kMsgIdLength → Fin 10) (n : Nat) :
    (u.after dists n).number =
      Counter.number (10 ^ kMsgIdLength) (fun k => decimal (drawn (dists k))) u.number n := by
  induction n with
  | zero => rfl
  | succ n ih =>
    rw [MsgIdUtil.after, (hu.after dists n).valid.number_genMsgId, ih]
    rfl

/-! ## Between two draws -/

theorem Reached.msgId_isMsgId (hu : u.Reached) (dists : Nat → Fin kMsgIdLength → Fin 10) (n : Nat) :
    IsMsgId (u.msgId dists n) :=
  ((hu.after dists n).valid.genMsgId (dists n)).1

section

variable {dists : Nat → Fin kMsgIdLength → Fin 10} {i m : Nat}

theorem Reached.number_msgId (hu : u.Reached) (n : Nat) :
    Counter.number (10 ^ kMsgIdLength) (fun k => decimal (drawn (dists k))) u.number (n + 1) =
      some (decimal (u.msgId dists n)) := by
  rw [← hu.number_after]
  exact number_eq_some (hu.msgId_isMsgId dists n)

/-- The counter goes on where no call draws. -/
theorem Reached.not_starts (hu : u.Reached)
    (hgo : ∀ k, i < k → k ≤ i + m → ¬ (u.after dists k).Draws) :
    ∀ k, i + 1 ≤ k → k < i + 1 + m → ¬ Counter.Starts (10 ^ kMsgIdLength)
      (Counter.number (10 ^ kMsgIdLength) (fun k => decimal (drawn (dists k))) u.number k) := by
  intro k hik hk
  rw [← hu.number_after, ← (hu.after dists k).valid.draws_iff]
  exact hgo k hik (by omega)

/-- The ids from one draw to the next are consecutive. -/
theorem Reached.decimal_msgId (hu : u.Reached)
    (hgo : ∀ k, i < k → k ≤ i + m → ¬ (u.after dists k).Draws) :
    decimal (u.msgId dists (i + m)) = decimal (u.msgId dists i) + m := by
  have hadd := Counter.number_add (hu.number_msgId i) (hu.not_starts hgo)
  rw [Nat.add_right_comm, hu.number_msgId] at hadd
  exact Option.some.inj hadd

/-- The next draw is the one behind the greatest id. -/
theorem Reached.draws_iff (hu : u.Reached)
    (hgo : ∀ k, i < k → k ≤ i + m → ¬ (u.after dists k).Draws) :
    (u.after dists (i + m + 1)).Draws ↔
      decimal (u.msgId dists i) + m + 1 = 10 ^ kMsgIdLength := by
  rw [(hu.after dists _).valid.draws_iff, hu.number_after, Nat.add_right_comm i m 1]
  exact Counter.starts_iff (hu.number_msgId i) (hu.not_starts hgo)

end

end MsgIdUtil

/-- Every id has twenty digits, and it is the next number unless the one before is all nines.
    The ids from one draw to the next are strictly increasing, as numbers and as texts. -/
theorem msgIds_count_up (u : MsgIdUtil) (hu : u.Reached)
    (dists : Nat → Fin kMsgIdLength → Fin 10) :
    (∀ n, IsMsgId (u.msgId dists n)) ∧
      (∀ n, (u.after dists n).msgIdNo ≠ [] → (u.after dists n).msgIdNo ≠ nines →
        decimal (u.msgId dists n) = decimal (u.after dists n).msgIdNo + 1) ∧
      ∀ i j, i < j → (∀ k, i < k → k ≤ j → ¬ (u.after dists k).Draws) →
        decimal (u.msgId dists i) < decimal (u.msgId dists j) ∧
          u.msgId dists i < u.msgId dists j ∧ u.msgId dists i ≠ u.msgId dists j := by
  refine ⟨hu.msgId_isMsgId dists, fun n hne hnines => ?_, fun i j hij hgo => ?_⟩
  · cases (hu.after dists n).valid with
    | new hnew => exact absurd (by rw [hnew]) hne
    | counts hid hmax =>
      have hgo : ¬ (u.after dists n).Draws := fun h => hnines ((h.resolve_left hne).trans hmax)
      rw [MsgIdUtil.msgId, MsgIdUtil.after, MsgIdUtil.genMsgId_of_not_draws hgo]
      exact hid.decimal_increment hnines
  · obtain ⟨m, rfl⟩ := Nat.exists_eq_add_of_lt hij
    have hnext := hu.decimal_msgId (m := m + 1) hgo
    have hlt : decimal (u.msgId dists i) < decimal (u.msgId dists (i + m + 1)) := by
      rw [Nat.add_assoc, hnext]
      omega
    refine ⟨hlt, ?_, fun heq => Nat.ne_of_lt hlt (congrArg decimal heq)⟩
    exact ((hu.msgId_isMsgId dists i).lt_iff (hu.msgId_isMsgId dists _)).mpr hlt

/-- What is behind an eight and nineteen nines. -/
theorem msgIds_count_up_carry :
    decimal (MsgIdUtil.msgId {} (fun _ i => if i.val = 0 then 8 else 9) 1) =
        decimal (MsgIdUtil.msgId {} (fun _ i => if i.val = 0 then 8 else 9) 0) + 1 ∧
      MsgIdUtil.msgId {} (fun _ i => if i.val = 0 then 8 else 9) 0 <
        MsgIdUtil.msgId {} (fun _ i => if i.val = 0 then 8 else 9) 1 := by
  obtain ⟨-, hnext, hlt⟩ := msgIds_count_up {} .new fun _ i => if i.val = 0 then 8 else 9
  refine ⟨hnext 1 (by decide) (by decide), (hlt 0 1 (by decide) fun k hpos hle => ?_).2.1⟩
  obtain rfl : k = 1 := Nat.le_antisymm hle hpos
  decide

end RocketRpc.Common
