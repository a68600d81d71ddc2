import Mathlib.Data.List.Perm.Basic
import RocketRpc.Coder.Contract
import RocketRpc.Lib.Framing
import RocketRpc.Net.TcpConnection

/-
  One direction of a connection, from `send` at one end to the message callback at the other.

  A message waits until the loop of its sender encodes it, its bytes go from the output buffer
  over the wire in pieces, and the loop of the receiver decodes what it has read. `Sound` is
  what the steps keep: what was sent is what was handed to the callback, what is decoded, what
  the bytes carry and what waits, each message once; only the order in which the loop takes
  waiting messages is left open, since what it sends itself it encodes at once.
-/

namespace RocketRpc.Net

open RocketRpc.Tcp RocketRpc.Coder StreamScan TinyPBProtocol

/-- Why a connection is closed by one of its ends. -/
inductive Broken where
  /-- `encode` returned false. -/
  | encode
  /-- The input buffer does not grow any more. -/
  | read
  /-- `decode` was fatal. -/
  | decode
  deriving DecidableEq, Repr

structure MessagePipe where
  /-- What was passed to `send` and is not encoded. -/
  queue : List TinyPBProtocol := []
  /-- `m_out_buffer` of the sender. -/
  outBuffer : TcpBuffer := TcpBuffer.new kDefaultBufferSize
  wire : Bytes := []
  /-- `m_in_buffer` of the receiver. -/
  inBuffer : TcpBuffer := TcpBuffer.new kDefaultBufferSize
  /-- `result.messages`, as far as the callback has not come to them. -/
  messages : List TinyPBProtocol := []
  broken : Option Broken := none

inductive PipeLabel where
  /-- The loop of the sender encodes the message at place `i` of those that wait. -/
  | encode (i : Nat)
  /-- The loop of the sender writes `n` bytes. -/
  | write (n : Nat)
  /-- The loop of the receiver reads `n` bytes and decodes. -/
  | read (n : Nat)
  deriving DecidableEq, Repr

namespace MessagePipe

variable (crc : Bytes → UInt32)

def send (p : MessagePipe) (m : TinyPBProtocol) : MessagePipe := { p with queue := p.queue ++ [m] }

def step (p : MessagePipe) : PipeLabel → Option MessagePipe
  | .encode i =>
    if p.broken = none then
      p.queue[i]?.map fun m =>
        let r := encodeMessage crc m p.outBuffer
        if r.1 then { p with queue := p.queue.eraseIdx i, outBuffer := r.2.2 }
        else { p with broken := some .encode }
    else none
  | .write n =>
    if p.broken = none ∧ 0 < n ∧ n ≤ p.outBuffer.readAble then
      some { p with
        outBuffer := p.outBuffer.moveReadIndex n
        wire := p.wire ++ p.outBuffer.readable.take n }
    else none
  | .read n =>
    if p.broken = none ∧ 0 < n ∧ n ≤ p.wire.length ∧ p.messages = [] then
      let read := p.inBuffer.append (p.wire.take n)
      if read.1 then
        let r := decode crc read.2
        if r.1.fatal then some { p with broken := some .decode }
        else some { p with wire := p.wire.drop n, inBuffer := r.2, messages := r.1.messages }
      else some { p with broken := some .read }
    else none

/-- The message callback comes to the next message. -/
def take (p : MessagePipe) : Option (TinyPBProtocol × MessagePipe) :=
  match p.messages with
  | m :: messages => some (m, { p with messages })
  | [] => none

/-- Nothing waits at either end or between them. -/
structure Rests (p : MessagePipe) : Prop where
  queue : p.queue = []
  outBuffer : p.outBuffer.readAble = 0
  wire : p.wire = []
  messages : p.messages = []

instance (p : MessagePipe) : Decidable p.Rests :=
  decidable_of_iff (p.queue = [] ∧ p.outBuffer.readAble = 0 ∧ p.wire = [] ∧ p.messages = [])
    ⟨fun ⟨h₁, h₂, h₃, h₄⟩ => ⟨h₁, h₂, h₃, h₄⟩, fun h => ⟨h.queue, h.outBuffer, h.wire, h.messages⟩⟩

theorem Rests.stuck {p : MessagePipe} (h : p.Rests) (l : PipeLabel) : p.step crc l = none := by
  cases l with
  | encode i => simp [step, h.queue]
  | write n =>
    have hout := h.outBuffer
    simp [step]
    omega
  | read n =>
    have hwire := h.wire
    simp [step, hwire]
    omega

end MessagePipe

/-- The frames of TinyPB. -/
def framing (crc : Bytes → UInt32) : Framing UInt8 TinyPBProtocol where
  decoder := frameDecoder crc
  write := frame
  valid := WellFormed crc
  verdict_write m rest h := by rw [length_frame]; exact verdict_frame h rest

/-- What was sent, and what the callback has come to, agree with what is between them. -/
structure Sound (crc : Bytes → UInt32) (p : MessagePipe) (sent received : List TinyPBProtocol) :
    Prop where
  carries : ∃ pending,
    Carries (framing crc) p.inBuffer.readable (p.wire ++ p.outBuffer.readable) pending ∧
      (received ++ (p.messages ++ (pending ++ p.queue.map (sealed crc)))).Perm
        (sent.map (sealed crc))
  decodes : p.broken ≠ some .decode

variable {crc : Bytes → UInt32} {p p' : MessagePipe} {sent received : List TinyPBProtocol}

theorem sound_new : Sound crc {} [] [] where
  carries := ⟨[], carries_nil, .nil⟩
  decodes := by decide

theorem Sound.send (h : Sound crc p sent received) (m : TinyPBProtocol) :
    Sound crc (p.send m) (sent ++ [m]) received where
  carries := by
    obtain ⟨pending, hcarries, hperm⟩ := h.carries
    refine ⟨pending, hcarries, ?_⟩
    have hmore := hperm.append_right [sealed crc m]
    simpa only [MessagePipe.send, List.map_append, List.map_cons, List.map_nil,
      List.append_assoc] using hmore
  decodes := h.decodes

theorem Sound.sendAll (h : Sound crc p sent received) (ms : List TinyPBProtocol) :
    Sound crc (ms.foldl MessagePipe.send p) (sent ++ ms) received := by
  induction ms generalizing p sent with
  | nil => simpa using h
  | cons m ms ih => simpa using ih (h.send m)

/-- What is received was sent. -/
theorem Sound.origin (h : Sound crc p sent received) {m : TinyPBProtocol} (hm : m ∈ received) :
    ∃ m' ∈ sent, m = sealed crc m' := by
  obtain ⟨pending, -, hperm⟩ := h.carries
  obtain ⟨m', hm', rfl⟩ := List.mem_map.mp (hperm.subset (List.mem_append_left _ hm))
  exact ⟨m', hm', rfl⟩

theorem Sound.take {m : TinyPBProtocol} (h : Sound crc p sent received)
    (htake : p.take = some (m, p')) : Sound crc p' sent (received ++ [m]) := by
  unfold MessagePipe.take at htake
  split at htake
  · rename_i m' messages hmessages
    obtain ⟨rfl, rfl⟩ := Prod.mk.inj (Option.some.inj htake)
    obtain ⟨pending, hcarries, hperm⟩ := h.carries
    refine ⟨⟨pending, hcarries, ?_⟩, h.decodes⟩
    rw [hmessages] at hperm
    simpa only [List.append_assoc, List.cons_append, List.nil_append] using hperm
  · exact absurd htake (by simp)

/-- The buffers and the wire of the two ends. -/
theorem Sound.step {l : PipeLabel} (h : Sound crc p sent received)
    (hstep : p.step crc l = some p') : Sound crc p' sent received := by
  obtain ⟨pending, hcarries, hperm⟩ := h.carries
  cases l with
  | encode i =>
    obtain ⟨-, heq⟩ := Option.ite_none_right_eq_some.mp hstep
    obtain ⟨m, hm, rfl⟩ := Option.map_eq_some_iff.mp heq
    dsimp only
    split
    · rename_i hok
      obtain ⟨hwf, -, hbuf⟩ := encodeMessage_ok hok
      refine ⟨⟨pending ++ [sealed crc m], ?_, ?_⟩, h.decodes⟩
      · rw [hbuf, ← List.append_assoc]
        exact hcarries.push hwf
      · refine .trans ?_ hperm
        obtain ⟨hi, rfl⟩ := List.getElem?_eq_some_iff.mp hm
        have herase := (List.getElem_cons_eraseIdx_perm hi).map (sealed crc)
        rw [List.map_cons] at herase
        simpa only [List.append_assoc, List.singleton_append] using
          (((herase.append_left pending).append_left p.messages).append_left received)
    · exact ⟨⟨pending, hcarries, hperm⟩, by simp⟩
  | write n =>
    obtain ⟨-, heq⟩ := Option.ite_none_right_eq_some.mp hstep
    obtain rfl := Option.some.inj heq
    refine ⟨⟨pending, ?_, hperm⟩, h.decodes⟩
    rw [TcpBuffer.moveReadIndex_readable, List.append_assoc, List.take_append_drop]
    exact hcarries
  | read n =>
    obtain ⟨⟨-, -, -, hempty⟩, heq⟩ := Option.ite_none_right_eq_some.mp hstep
    dsimp only at heq
    split at heq
    · rename_i happ
      obtain ⟨hmsgs, hfatal, hres⟩ := decode_spec crc (p.inBuffer.append (p.wire.take n)).2
      rw [TcpBuffer.append_readable happ] at hmsgs hfatal hres
      rw [← List.take_append_drop n p.wire, List.append_assoc] at hcarries
      obtain ⟨hrej, rest, rfl, hrest⟩ := hcarries.pull
      change (scan (frameDecoder crc) _).rejected = none at hrej
      rw [hrej] at hfatal
      rw [if_neg (by simp [hfatal])] at heq
      obtain rfl := Option.some.inj heq
      refine ⟨⟨rest, ?_, ?_⟩, h.decodes⟩
      · dsimp only
        rw [hres]
        exact hrest
      · rw [hempty, List.nil_append] at hperm
        dsimp only
        rw [hmsgs]
        simpa only [framing, List.append_assoc] using hperm
    · obtain rfl := Option.some.inj heq
      exact ⟨⟨pending, hcarries, hperm⟩, by simp⟩

/-- Where no end can go on and neither has closed the connection, everything sent has been
    handed to the callback. -/
theorem Sound.delivered (h : Sound crc p sent received) (hopen : p.broken = none)
    (hstuck : ∀ l, p.step crc l = none) (htake : p.take = none) :
    received.Perm (sent.map (sealed crc)) := by
  obtain ⟨pending, hcarries, hperm⟩ := h.carries
  have hmessages : p.messages = [] := by
    unfold MessagePipe.take at htake
    split at htake
    · exact absurd htake (by simp)
    · assumption
  have hqueue : p.queue = [] := by
    by_contra hne
    obtain ⟨m, queue, hq⟩ := List.exists_cons_of_ne_nil hne
    have hnone := hstuck (.encode 0)
    simp [MessagePipe.step, hopen, hq] at hnone
  have hout : p.outBuffer.readable = [] := by
    rw [TcpBuffer.readable_eq_nil_iff]
    by_contra hne
    have hnone := hstuck (.write 1)
    simp [MessagePipe.step, hopen] at hnone
    omega
  have hwire : p.wire = [] := by
    by_contra hne
    have hpos := List.length_pos_iff.mpr hne
    have hnone := hstuck (.read 1)
    simp only [MessagePipe.step] at hnone
    rw [if_pos ⟨hopen, Nat.one_pos, hpos, hmessages⟩] at hnone
    split at hnone
    · split at hnone <;> exact absurd hnone (by simp)
    · exact absurd hnone (by simp)
  rw [hout, hwire] at hcarries
  obtain ⟨-, rfl⟩ := hcarries.drained
  simpa [hmessages, hqueue] using hperm

/-! ## How long a pipe can go on -/

/-- More than the steps that a message takes from the queue on. -/
def perMessage : Nat := 4 * kMaxPacketSize + 1

/-- A bound on the steps that are left while nothing is sent. -/
def MessagePipe.work (p : MessagePipe) : Nat :=
  perMessage * p.queue.length + 4 * p.outBuffer.readAble + 3 * p.wire.length +
    2 * p.inBuffer.readAble + p.messages.length + if p.broken = none then 1 else 0

theorem pipe_send_work (p : MessagePipe) (m : TinyPBProtocol) :
    (p.send m).work = p.work + perMessage := by
  have hqueue : (p.send m).queue.length = p.queue.length + 1 := by simp [MessagePipe.send]
  have hwork : (p.send m).work = perMessage * (p.send m).queue.length +
      4 * p.outBuffer.readAble + 3 * p.wire.length + 2 * p.inBuffer.readAble + p.messages.length +
      if p.broken = none then 1 else 0 := rfl
  rw [hwork, hqueue, Nat.mul_succ, MessagePipe.work]
  omega

theorem pipe_take_work {m : TinyPBProtocol} (h : p.take = some (m, p')) : p'.work + 1 = p.work := by
  unfold MessagePipe.take at h
  split at h
  · rename_i m' messages hmessages
    obtain ⟨-, rfl⟩ := Prod.mk.inj (Option.some.inj h)
    simp only [MessagePipe.work, hmessages, List.length_cons]
    omega
  · exact absurd h (by simp)

theorem pipe_step_work {l : PipeLabel} (h : p.step crc l = some p') : p'.work < p.work := by
  cases l with
  | encode i =>
    obtain ⟨hopen, heq⟩ := Option.ite_none_right_eq_some.mp h
    obtain ⟨m, hm, rfl⟩ := Option.map_eq_some_iff.mp heq
    dsimp only
    split
    · rename_i hok
      obtain ⟨hwf, -, hbuf⟩ := encodeMessage_ok hok
      have hsize := hwf.size_le
      obtain ⟨hi, -⟩ := List.getElem?_eq_some_iff.mp hm
      have hqueue : (p.queue.eraseIdx i).length + 1 = p.queue.length := by
        rw [List.length_eraseIdx_of_lt hi]
        omega
      have hout := congrArg List.length hbuf
      rw [List.length_append, length_frame, TcpBuffer.length_readable,
        TcpBuffer.length_readable] at hout
      simp only [MessagePipe.work, hout, ← hqueue]
      rw [Nat.mul_succ, perMessage]
      omega
    · simp [MessagePipe.work, hopen]
  | write n =>
    obtain ⟨⟨-, hpos, hle⟩, heq⟩ := Option.ite_none_right_eq_some.mp h
    obtain rfl := Option.some.inj heq
    have hout : (p.outBuffer.moveReadIndex n).readAble = p.outBuffer.readAble - n := by
      rw [← TcpBuffer.length_readable, TcpBuffer.moveReadIndex_readable, List.length_drop,
        TcpBuffer.length_readable]
    simp only [MessagePipe.work, hout, List.length_append, List.length_take,
      TcpBuffer.length_readable]
    omega
  | read n =>
    obtain ⟨⟨hopen, hpos, hle, hempty⟩, heq⟩ := Option.ite_none_right_eq_some.mp h
    dsimp only at heq
    split at heq
    · rename_i happ
      obtain ⟨hmsgs, -, hres⟩ := decode_spec crc (p.inBuffer.append (p.wire.take n)).2
      rw [TcpBuffer.append_readable happ] at hmsgs hres
      have hscan := length_messages_le (frameDecoder crc) (p.inBuffer.readable ++ p.wire.take n)
      rw [← hmsgs, ← hres, List.length_append, List.length_take, TcpBuffer.length_readable,
        TcpBuffer.length_readable] at hscan
      split at heq
      · obtain rfl := Option.some.inj heq
        simp [MessagePipe.work, hopen]
      · obtain rfl := Option.some.inj heq
        simp only [MessagePipe.work, hempty, List.length_drop, List.length_nil]
        omega
    · obtain rfl := Option.some.inj heq
      simp [MessagePipe.work, hopen]

end RocketRpc.Net
