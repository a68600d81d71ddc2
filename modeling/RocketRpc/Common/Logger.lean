import RocketRpc.Rpc.RpcController

/-
  The logger between one start and its stop (`rocket/common/log.cc`).

  The threads are those that log, the format thread, the write thread and the one that calls
  `stop`. A step is one atomic operation, one critical section or what a thread does between
  two of them; the format thread holds `m_slot_mutex` over many steps. The log file is open,
  and writes complete in full. What `localtime_r` makes of a second is a parameter.
-/

namespace RocketRpc.Common

open RocketRpc.Tcp RocketRpc.Rpc

def kMaxDequeuePerRound : Nat := 1024

def kWriteThreshold : Nat := 256 * 1024

/-- `message` is what `runFormat` appends. -/
structure LogEntry where
  threadId : UInt64 := 0
  timestampNs : UInt64 := 0
  level : UInt8 := 0
  msgid : Bytes := []
  methodName : Bytes := []
  message : Bytes := []
  deriving DecidableEq, Repr

def logLevelToString (level : UInt8) : Bytes :=
  match level.toNat with
  | 0 => text "DEBUG"
  | 1 => text "INFO"
  | 2 => text "WARN"
  | 3 => text "ERROR"
  | _ => text "UNKNOWN"

/-- The second that was formatted last, and its text. -/
structure DateCache where
  lastSec : Nat := 0
  buf : Bytes := []
  deriving DecidableEq, Repr

def DateCache.at (date : Nat → Bytes) (dtc : DateCache) (secs : Nat) : DateCache :=
  if secs = dtc.lastSec then dtc else { lastSec := secs, buf := date secs }

/-- `formatLine` behind its look at the cache. -/
def LogEntry.line (e : LogEntry) (date : Bytes) : Bytes :=
  let ms := e.timestampNs.toNat % 1000000000 / 1000000
  date ++ text "." ++ (text (toString ms)).leftpad 3 48 ++ text " [" ++ logLevelToString e.level ++
    text "] [tid=" ++ text (toString e.threadId.toNat) ++ text "]" ++
    (if e.msgid.isEmpty then [] else text " [msgid=" ++ e.msgid ++ text "]") ++
    (if e.methodName.isEmpty then [] else text " [method=" ++ e.methodName ++ text "]") ++
    text " " ++ e.message ++ text "\n"

def LogEntry.secs (e : LogEntry) : Nat := e.timestampNs.toNat / 1000000000

/-- The queue of a thread that logs: what is published, the oldest first, and whether a cell
    is claimed. -/
structure ThreadSlot where
  queue : List LogEntry := []
  claimed : Bool := false
  deriving DecidableEq, Repr

/-- What the format thread comes to next. -/
inductive ConsumerAt where
  /-- At the load of `m_running` in front of a round. -/
  | loop
  /-- At the lock in front of the poll. -/
  | poll
  /-- At `tryDequeue` on slot `idx`, holding `m_slot_mutex`. -/
  | polling (idx polled : Nat) (batch : List LogEntry)
  | format (e : LogEntry) (rest : List LogEntry)
  | swapBuffer
  | idleSwap
  | hasData
  | stillRunning
  | needFlush
  /-- At the critical section that wakes the writer for a flush. -/
  | wakeWriter
  /-- In `wait_for`, which can return at any time. -/
  | wait
  /-- At the lock in front of the final drain. -/
  | finalDrain
  /-- At `tryDequeue` of the final drain on slot `i`, holding `m_slot_mutex`. -/
  | drain (i : Nat) (batch : List LogEntry)
  | drainFormat (i : Nat) (e : LogEntry) (rest : List LogEntry)
  /-- At the last critical section. -/
  | handOver
  | exited
  deriving DecidableEq, Repr

/-- What the write thread comes to next. -/
inductive WriterAt where
  /-- At the load of `m_running` in front of a round. -/
  | loop
  /-- At the read of `m_write_ready` in front of a round. -/
  | ready
  /-- At the critical section, or waiting on `m_write_cv`. -/
  | wait
  | write
  /-- At the exchange of `m_need_flush`. -/
  | flush
  | finalFlush
  | exited
  deriving DecidableEq, Repr

/-- What the call of `stop` comes to next. -/
inductive StopAt where
  | notCalled
  | joinConsumer
  | joinWriter
  | returned
  deriving DecidableEq, Repr

structure Logger where
  running : Bool := true
  needFlush : Bool := false
  queueCapacity : Nat
  slots : List ThreadSlot := []
  pollIndex : Nat := 0
  droppedCount : Nat := 0
  dtc : DateCache := {}
  fmtBuf : Bytes := []
  writeBuf : Bytes := []
  writeReady : Bool := false
  /-- The buffer of the write thread. -/
  buf : Bytes := []
  /-- What was written to the log file. -/
  file : Bytes := []
  consumer : ConsumerAt := .loop
  writer : WriterAt := .loop
  stopAt : StopAt := .notCalled
  deriving DecidableEq, Repr

inductive LogEvent where
  | published (i : Nat) (e : LogEntry)
  | formatted (e : LogEntry) (line : Bytes)
  deriving DecidableEq, Repr

inductive LogLabel where
  | registerThisThread
  /-- The thread of slot `i` is at `tryClaim`. -/
  | tryClaim (i : Nat)
  | publish (i : Nat) (e : LogEntry)
  /-- The store of a call of `flush` that found the logger running. -/
  | flush
  /-- The format thread goes on. -/
  | consume
  /-- The write thread goes on. -/
  | write
  /-- The call of `stop` goes on. -/
  | stop
  deriving DecidableEq, Repr

namespace ConsumerAt

/-- The format thread holds `m_slot_mutex` between its steps. -/
def holdsSlots : ConsumerAt → Bool
  | .polling .. | .drain .. | .drainFormat .. => true
  | _ => false

/-- What is dequeued and not formatted. -/
def batch : ConsumerAt → List LogEntry
  | .polling _ _ batch | .drain _ batch => batch
  | .format e rest | .drainFormat _ e rest => e :: rest
  | _ => []

end ConsumerAt

namespace Logger

variable (date : Nat → Bytes)

def new (queueCapacity : Nat) : Logger := { queueCapacity }

def registerThisThread (s : Logger) : Option Logger :=
  if s.consumer.holdsSlots then none else some { s with slots := s.slots ++ [{}] }

def tryClaim (s : Logger) (i : Nat) : Option Logger :=
  match s.slots[i]? with
  | some slot =>
    if slot.claimed then none
    else if slot.queue.length < s.queueCapacity then
      some { s with slots := s.slots.set i { slot with claimed := true } }
    else some { s with droppedCount := s.droppedCount + 1 }
  | none => none

def publish (s : Logger) (i : Nat) (e : LogEntry) : Option Logger :=
  match s.slots[i]? with
  | some slot =>
    if slot.claimed then
      some { s with slots := s.slots.set i { queue := slot.queue ++ [e], claimed := false } }
    else none
  | none => none

/-- `tryDequeue` on the queue of slot `i`, while the batch has room. -/
def tryDequeue (s : Logger) (i : Nat) (batch : List LogEntry) : Option (LogEntry × Logger) :=
  if batch.length < kMaxDequeuePerRound then
    match s.slots[i]? with
    | some slot =>
      match slot.queue with
      | e :: queue => some (e, { s with slots := s.slots.set i { slot with queue } })
      | [] => none
    | none => none
  else none

/-- `formatLine`, and what the format thread comes to then. -/
def formatLine (s : Logger) (e : LogEntry) (next : ConsumerAt) : Logger × List LogEvent :=
  let dtc := s.dtc.at date e.secs
  let line := e.line dtc.buf
  ({ s with dtc, fmtBuf := s.fmtBuf ++ line, consumer := next }, [.formatted e line])

/-- `m_write_buf.swap(wb)`, if `wb` is to be handed over. -/
def swapIf (s : Logger) (b : Bool) : Logger :=
  if b then { s with fmtBuf := s.writeBuf, writeBuf := s.fmtBuf, writeReady := true } else s

/-- The next operation of the format thread. -/
def consume (s : Logger) : Option (Logger × List LogEvent) :=
  match s.consumer with
  | .loop => some ({ s with consumer := if s.running then .poll else .finalDrain }, [])
  | .poll =>
    if s.slots.isEmpty then some ({ s with pollIndex := 0, consumer := .idleSwap }, [])
    else some ({ s with consumer := .polling (s.pollIndex % s.slots.length) 0 [] }, [])
  | .polling idx polled batch =>
    match s.tryDequeue idx batch with
    | some (e, s) => some ({ s with consumer := .polling idx polled (batch ++ [e]) }, [])
    | none =>
      let idx := (idx + 1) % s.slots.length
      if polled + 1 < s.slots.length ∧ batch.length < kMaxDequeuePerRound then
        some ({ s with consumer := .polling idx (polled + 1) batch }, [])
      else
        match batch with
        | [] => some ({ s with pollIndex := idx, consumer := .idleSwap }, [])
        | e :: rest => some ({ s with pollIndex := idx, consumer := .format e rest }, [])
  | .format e [] => some (s.formatLine date e .swapBuffer)
  | .format e (e' :: rest) => some (s.formatLine date e (.format e' rest))
  | .swapBuffer =>
    some ({ s.swapIf (kWriteThreshold ≤ s.fmtBuf.length) with consumer := .loop }, [])
  | .idleSwap => some ({ s.swapIf (!s.fmtBuf.isEmpty) with consumer := .hasData }, [])
  | .hasData =>
    let hasData := s.slots.any fun slot => !slot.queue.isEmpty
    some ({ s with consumer := if hasData then .loop else .stillRunning }, [])
  | .stillRunning => some ({ s with consumer := if s.running then .needFlush else .loop }, [])
  | .needFlush => some ({ s with consumer := if s.needFlush then .wakeWriter else .wait }, [])
  | .wakeWriter => some ({ s with writeReady := true, consumer := .loop }, [])
  | .wait => some ({ s with consumer := .loop }, [])
  | .finalDrain => some ({ s with consumer := .drain 0 [] }, [])
  | .drain i batch =>
    match s.tryDequeue i batch with
    | some (e, s) => some ({ s with consumer := .drain i (batch ++ [e]) }, [])
    | none =>
      match batch with
      | e :: rest => some ({ s with consumer := .drainFormat i e rest }, [])
      | [] =>
        some ({ s with consumer := if i + 1 < s.slots.length then .drain (i + 1) [] else .handOver },
          [])
  | .drainFormat i e [] => some (s.formatLine date e (.drain i []))
  | .drainFormat i e (e' :: rest) => some (s.formatLine date e (.drainFormat i e' rest))
  | .handOver => some ({ s.swapIf (!s.fmtBuf.isEmpty) with consumer := .exited }, [])
  | .exited => none

/-- The next operation of the write thread. -/
def write (s : Logger) : Option Logger :=
  match s.writer with
  | .loop => some { s with writer := if s.running then .wait else .ready }
  | .ready => some { s with writer := if s.writeReady then .wait else .finalFlush }
  | .wait =>
    if s.writeReady then
      some { s with buf := s.writeBuf, writeBuf := s.buf, writeReady := false, writer := .write }
    else if s.running then none
    else some { s with writer := .finalFlush }
  | .write => some { s with file := s.file ++ s.buf, buf := [], writer := .flush }
  | .flush => some { s with needFlush := false, writer := .loop }
  | .finalFlush => some { s with file := s.file ++ s.buf, writer := .exited }
  | .exited => none

/-- The next operation of `stop`. -/
def stop (s : Logger) : Option Logger :=
  match s.stopAt with
  | .notCalled => some { s with running := false, stopAt := .joinConsumer }
  | .joinConsumer => if s.consumer = .exited then some { s with stopAt := .joinWriter } else none
  | .joinWriter => if s.writer = .exited then some { s with stopAt := .returned } else none
  | .returned => none

def step (s : Logger) : LogLabel → Option (Logger × List LogEvent)
  | .registerThisThread => s.registerThisThread.map fun s' => (s', [])
  | .tryClaim i => (s.tryClaim i).map fun s' => (s', [])
  | .publish i e => (s.publish i e).map fun s' => (s', [.published i e])
  | .flush => some ({ s with needFlush := true }, [])
  | .consume => s.consume date
  | .write => s.write.map fun s' => (s', [])
  | .stop => s.stop.map fun s' => (s', [])

end Logger

/-! ## What a run has done -/

/-- The entries that were published, in the order in which they were. -/
def published (tr : List LogEvent) : List LogEntry :=
  tr.filterMap fun
    | .published _ e => some e
    | _ => none

/-- The lines that were formatted, with their entries, in the order in which they were. -/
def formatted (tr : List LogEvent) : List (LogEntry × Bytes) :=
  tr.filterMap fun
    | .formatted e line => some (e, line)
    | _ => none

theorem published_append (tr es : List LogEvent) :
    published (tr ++ es) = published tr ++ published es :=
  List.filterMap_append

theorem formatted_append (tr es : List LogEvent) :
    formatted (tr ++ es) = formatted tr ++ formatted es :=
  List.filterMap_append

/-- The text of some lines. -/
def textOf (lines : List (LogEntry × Bytes)) : Bytes := (lines.map Prod.snd).flatten

theorem textOf_append (xs ys : List (LogEntry × Bytes)) :
    textOf (xs ++ ys) = textOf xs ++ textOf ys := by
  simp [textOf]

end RocketRpc.Common
