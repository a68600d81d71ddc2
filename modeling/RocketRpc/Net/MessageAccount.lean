import RocketRpc.Net.TcpConnection

/-
  What becomes of every message that is sent: an account that runs beside a connection.

  A message gets a number when the state check of `send` lets it pass. The account follows
  the numbered messages through `m_write_queue` and a drain into the output buffer, and
  notes which of them a drain has dropped. A message is owed when its `send` has returned
  before anybody called `shutdown`. The account reads the connection and never changes what
  it does.
-/

namespace RocketRpc.Net

open RocketRpc.Tcp RocketRpc.Coder

structure Sent where
  number : Nat
  message : AbstractProtocol
  deriving DecidableEq, Repr

structure Account where
  next : Nat := 0
  /-- The threads in `send` behind its check, with their messages. -/
  sending : List (ThreadId × Sent) := []
  /-- The messages in `m_write_queue`. -/
  queue : List Sent := []
  /-- The messages that the current round of a drain has kept. -/
  batch : List Sent := []
  encoded : List Sent := []
  dropped : List Sent := []
  /-- `shutdown` was called. -/
  shut : Bool := false
  owed : List Sent := []
  deriving DecidableEq, Repr

namespace Account

variable (crc : Bytes → UInt32)

/-- The message of a thread in `send`. -/
def entry (a : Account) (t : ThreadId) : Option Sent :=
  (a.sending.find? fun p => p.1 = t).map Prod.snd

/-- Whether `sendInLoopBatch` encodes. -/
def encodes (w : World) (messages : List Sent) : Bool :=
  !w.conn.rejects && (encode crc (messages.map Sent.message) w.conn.outBuffer).1

/-- The send of a message has returned. -/
def accept (a : Account) (e : Sent) : Account :=
  if a.shut then a else { a with owed := a.owed ++ [e] }

/-- `send` on the loop. -/
def sendInLoop (a : Account) (w : World) (message : AbstractProtocol) : Account :=
  let e : Sent := ⟨a.next, message⟩
  let encoded := if encodes crc w [e] then a.encoded ++ [e] else a.encoded
  { a with next := a.next + 1, encoded }.accept e

/-- `send` on another thread has passed the check. -/
def enter (a : Account) (t : ThreadId) (message : AbstractProtocol) : Account :=
  { a with next := a.next + 1, sending := (t, ⟨a.next, message⟩) :: a.sending }

/-- The exchange of `push`. -/
def push (a : Account) (t : ThreadId) : Account :=
  match a.entry t with
  | some e => { a with queue := a.queue ++ [e] }
  | none => a

/-- `send` on another thread returns. -/
def leave (a : Account) (t : ThreadId) : Account :=
  match a.entry t with
  | some e => { a with sending := a.sending.filter fun p => p.1 ≠ t }.accept e
  | none => a

/-- A drain pops the first message. -/
def pop (a : Account) (w : World) : Account :=
  match a.queue with
  | [] => a
  | e :: queue =>
    if w.conn.state = .connected then { a with queue, batch := a.batch ++ [e] }
    else { a with queue, dropped := a.dropped ++ [e] }

/-- The round of a drain ends with `sendInLoopBatch`. -/
def endRound (a : Account) (w : World) : Account :=
  if encodes crc w a.batch then { a with encoded := a.encoded ++ a.batch, batch := [] }
  else if w.conn.rejects then { a with dropped := a.dropped ++ a.batch, batch := [] }
  else { a with batch := [] }

def drain (a : Account) (w : World) (round batch : Nat) (sees : Bool) : Account :=
  if round = 3 then a
  else
    match (if batch < 256 then MpscQueue.pop w.conn.writeQueue sees else none) with
    | some _ => a.pop w
    | none => a.endRound crc w

def foreign (a : Account) (w : World) (t : ThreadId) : Sender → Foreign → Account
  | .idle, .send (some message) => if w.conn.rejects then a else a.enter t message
  | .idle, .shutdown => { a with shut := true }
  | .pushing _, .goOn => a.push t
  | .arming, .goOn => if w.conn.writeQueued then a.leave t else a
  | .queueing, .goOn => a.leave t
  | _, _ => a

/-- The account after a step that the connection takes from `w`. -/
def after (a : Account) (w : World) : Label → Account
  | .call (.send (some message)) =>
    if w.conn.rejects then a else a.sendInLoop crc w message
  | .call .shutdown => { a with shut := true }
  | .resume _ sees =>
    match w.stack with
    | .drain round batch _ :: _ => a.drain crc w round batch sees
    | _ => a
  | .foreign t f => a.foreign w t (w.senders t) f
  | _ => a

end Account

/-- A connection with its account. -/
structure Tracked where
  world : World
  account : Account := {}

namespace Account

/-! ## Entries -/

theorem entry_enter (a : Account) (t t' : ThreadId) (message : AbstractProtocol) :
    (a.enter t message).entry t' = if t = t' then some ⟨a.next, message⟩ else a.entry t' := by
  unfold entry enter
  by_cases h : t = t' <;> simp [h]

theorem entry_filter (a : Account) (t t' : ThreadId) :
    ({ a with sending := a.sending.filter fun p => p.1 ≠ t } : Account).entry t' =
      if t' = t then none else a.entry t' := by
  unfold entry
  simp only [List.find?_filter]
  by_cases h : t' = t
  · subst h
    simp only [if_true, Option.map_eq_none_iff, List.find?_eq_none]
    intro p _
    simp
  · rw [if_neg h]
    congr 2
    funext p
    by_cases hp : p.1 = t'
    · simp [hp, h]
    · simp [hp]

theorem accept_eq (a : Account) (e : Sent) :
    a.accept e = { a with owed := if a.shut then a.owed else a.owed ++ [e] } := by
  unfold accept
  split <;> rfl

@[simp] theorem accept_entry (a : Account) (e : Sent) (t : ThreadId) :
    (a.accept e).entry t = a.entry t := by
  rw [accept_eq]
  rfl

theorem mem_accept {a : Account} {e e' : Sent} :
    e' ∈ (a.accept e).owed ↔ e' ∈ a.owed ∨ (a.shut = false ∧ e' = e) := by
  rw [accept_eq]
  cases a.shut <;> simp

theorem mem_sending {a : Account} {t : ThreadId} {e : Sent} (h : a.entry t = some e) :
    a.sending ≠ [] := by
  intro hnil
  simp [entry, hnil] at h

end Account

namespace Tracked

variable (crc : Bytes → UInt32)

def step (x : Tracked) (l : Label) : Option (Tracked × List Event) :=
  (x.world.step crc l).map fun r => (⟨r.1, x.account.after crc x.world l⟩, r.2)

/-- The account only watches. -/
theorem step_world {x x' : Tracked} {l : Label} {es : List Event}
    (h : x.step crc l = some (x', es)) :
    x.world.step crc l = some (x'.world, es) ∧ x'.account = x.account.after crc x.world l := by
  obtain ⟨⟨w, es'⟩, hw, heq⟩ := Option.map_eq_some_iff.mp h
  obtain ⟨rfl, rfl⟩ := Prod.mk.inj heq
  exact ⟨hw, rfl⟩

end Tracked

end RocketRpc.Net
