import RocketRpc.Tcp.TcpBuffer

/-
  Message ids: `rocket/common/msg_id_util`.

  A thread draws a number of twenty digits once, and counts it up from then on until it is all
  nines. What the random generator draws is an argument. Every id has twenty digits
  (`genMsgId_isMsgId`).
-/

namespace RocketRpc.Common

open RocketRpc.Tcp

def kMsgIdLength : Nat := 20

/-- `'0' + d`. -/
def digit (d : Fin 10) : UInt8 := 48 + UInt8.ofNat d.val

def nine : UInt8 := 57

/-- The variables of a thread. -/
structure MsgIdUtil where
  msgIdNo : Bytes := []
  maxMsgIdNo : Bytes := []
  deriving DecidableEq, Repr

/-- The `while` loop of `GenMsgID`: how many characters are left without the nines at the end. -/
def skipNines (no : Bytes) : Nat → Nat
  | 0 => 0
  | i + 1 => if no[i]? = some nine then skipNines no i else i + 1

/-- Count up: the digit in front of the nines at the end, and zeros from there on. -/
def increment (no : Bytes) : Bytes :=
  match skipNines no no.length with
  | 0 => no
  | i + 1 => no.mapIdx fun j c => if j = i then c + 1 else if i < j then digit 0 else c

/-- `GenMsgID()`: the id, which is also the number of the thread from then on. -/
def MsgIdUtil.genMsgId (u : MsgIdUtil) (dist : Fin kMsgIdLength → Fin 10) : MsgIdUtil :=
  if u.msgIdNo.isEmpty || u.msgIdNo == u.maxMsgIdNo then
    { maxMsgIdNo :=
        if u.maxMsgIdNo.isEmpty then List.replicate kMsgIdLength nine else u.maxMsgIdNo
      msgIdNo := List.ofFn fun i => digit (dist i) }
  else { u with msgIdNo := increment u.msgIdNo }

/-- The digit that is counted up is not a nine. -/
theorem skipNines_spec (no : Bytes) {n i : Nat} (h : skipNines no n = i + 1) :
    no[i]? ≠ some nine := by
  induction n with
  | zero => exact absurd h (by simp [skipNines])
  | succ n ih =>
    unfold skipNines at h
    split at h
    · exact ih h
    · rename_i hne
      rwa [← Nat.succ.inj h]

/-- A number of twenty digits. -/
def IsMsgId (no : Bytes) : Prop :=
  no.length = kMsgIdLength ∧ ∀ c ∈ no, ∃ d, c = digit d

theorem IsMsgId.ne_nil {no : Bytes} (h : IsMsgId no) : no ≠ [] := by
  intro hnil
  have := h.1
  rw [hnil] at this
  exact absurd this (by decide)

/-- A digit that is not a nine has a next one. -/
theorem digit_succ : ∀ d : Fin 10, digit d ≠ nine → ∃ e, digit d + 1 = digit e := by decide

theorem increment_isMsgId {no : Bytes} (h : IsMsgId no) : IsMsgId (increment no) := by
  unfold increment
  split
  · exact h
  · rename_i i hi
    refine ⟨by rw [List.length_mapIdx]; exact h.1, fun c hc => ?_⟩
    obtain ⟨j, hj, rfl⟩ := List.mem_mapIdx.mp hc
    obtain ⟨d, hd⟩ := h.2 _ (List.getElem_mem hj)
    split
    · rename_i hij
      have hne := skipNines_spec no hi
      rw [← hij, List.getElem?_eq_getElem hj, hd] at hne
      rw [hd]
      exact digit_succ d fun heq => hne (congrArg some heq)
    · split
      · exact ⟨0, rfl⟩
      · exact ⟨d, hd⟩

/-- Every id has twenty digits, and so the next one has, too. -/
theorem genMsgId_isMsgId {u : MsgIdUtil} (h : u.msgIdNo = [] ∨ IsMsgId u.msgIdNo)
    (dist : Fin kMsgIdLength → Fin 10) : IsMsgId (u.genMsgId dist).msgIdNo := by
  unfold MsgIdUtil.genMsgId
  split
  · refine ⟨List.length_ofFn, fun c hc => ?_⟩
    obtain ⟨i, rfl⟩ := List.mem_ofFn.mp hc
    exact ⟨dist i, rfl⟩
  · rename_i hcond
    refine increment_isMsgId (h.resolve_left fun hnil => hcond ?_)
    rw [hnil]
    rfl

example : increment [49, 56, 57, 57] = [49, 57, 48, 48] := by decide

end RocketRpc.Common
