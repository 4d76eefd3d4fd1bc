import Http3Bench.Ends
import Http3Bench.Latencies
import Http3Bench.Sending

/-!
# The state of a worker

Commands, outcomes, phases and the fields of `Worker`. `EchoPhase.captured`, `drawn` and
`completed`, `RatePhase.finished` and `ended`, the refusals of `Phase.ratePrep`, `Worker.serial`
and `Worker.log` are history: what the phase started with, which tickets it drew and completed, how
its streams ended, how many calls failed while `start` was dialing, and which calls the worker
made. `Worker.given` and `Worker.sent` are every command the engine sent it and every outcome it sent
back. A stack of the source (`free`, `dirty`) has its top at the head of the list.
-/

namespace Http3Bench

structure EngineConfig where
  addrs : List SocketAddr
  authority : String
  /-- SNI, only for a host name. -/
  serverName : Option String
  dialTimeout : Duration
  dialRetries : ℕ
  dialRetryInterval : Duration
  idleTimeout : Duration
  check : Bool

structure EchoJob where
  times : ℕ
  payloads : List Body
  measure : Bool
  limited : Bool
  deriving DecidableEq

structure RateJob where
  duration : Duration
  batch : ℕ
  tick : Duration
  payload : Body
  limited : Bool
  deriving DecidableEq

structure RateCounts where
  sendTimes : ℕ := 0
  sendBytes : ℕ := 0
  recvTimes : ℕ := 0
  recvBytes : ℕ := 0
  answered : ℕ := 0

def maxBatchesInFlight : ℕ := 4

inductive Command
  | dial (count concurrency : ℕ)
  | echo (job : EchoJob) (concurrency : ℕ)
  | rate (job : RateJob)
  | stop
  deriving DecidableEq

def Command.isStop : Command → Bool
  | .stop => true
  | _ => false

structure DialPhase where
  remaining : ℕ
  active : ℕ := 0
  concurrency : ℕ
  lat : Latencies := {}

structure EchoPhase where
  job : EchoJob
  slots : ℕ
  inFlight : ℕ := 0
  idle : List ℕ
  exhausted : Bool
  waitUntil : Option Instant := none
  lat : Latencies := {}
  captured : List ℕ
  drawn : List ℕ := []
  completed : List ℕ := []

structure RatePhase where
  job : RateJob
  conns : List ℕ
  deadline : Instant
  nextTick : Instant
  graceUntil : Option Instant := none
  counts : RateCounts := {}
  finished : ℕ := 0
  ended : ℕ := 0

inductive Phase
  | idle
  | dial (d : DialPhase)
  | echo (e : EchoPhase)
  | ratePrep (job : RateJob) (redials refusals : ℕ)
  | rate (r : RatePhase)

/-- The phase an `echo` outcome ends is history. -/
inductive Outcome
  | dial (lat : Latencies)
  | echo (lat : Latencies) (last : EchoPhase)
  | rate (counts : RateCounts)

/-- The cells a worker shares with the others: `connected` and `addr_counter` of the engine, and
the `issued` counter of the job it runs. -/
structure Shared where
  issued : ℕ := 0
  connected : ℤ := 0
  addrCounter : ℕ := 0

inductive Entry
  /-- `try_dial` was called for the dial job `id`. -/
  | attempt (purpose : Purpose) (id : ℕ)
  /-- A call to the kernel or to `quiche::connect` failed while dialing or flushing. -/
  | refused
  | registerFailed
  /-- A connection that was dialed for `purpose` came up. -/
  | up (purpose : Purpose)
  /-- `try_send` was called on the `Conn` `uid`. -/
  | trySend (uid : ℕ)
  /-- quiche refused the request with an error other than having no room for it. -/
  | hardError (uid : ℕ) (kind : ReqKind)
  /-- `try_send` returned `SendError::Failed`. -/
  | failed (uid : ℕ)
  deriving DecidableEq

/-- Whether a call to the kernel or to quiche failed. -/
def Entry.isRefusal : Entry → Bool
  | .refused | .registerFailed => true
  | _ => false

/-- What takes a worker off its path: a panic, by what raises it, or (`spin`) a loop that a zero
tick never lets end. -/
inductive Panic
  | index
  | unwrap
  | underflow
  | noPayload
  | noAddrs
  | spin
  deriving DecidableEq

abbrev Timer := Instant × ℕ

structure Worker (P : Platform) where
  cfg : EngineConfig
  rx : List Command := []
  given : List Command := []
  sent : List Outcome := []
  shared : Shared := {}
  ready : ℤ := 0
  getHeaders : List Header
  postHeaders : List Header := []
  postLen : Option ℕ := none
  slots : List (Option (Conn P)) := []
  free : List ℕ := []
  /-- The binary heap, as the list its entries would be popped in. -/
  timers : List Timer := []
  retries : List (Instant × DialJob) := []
  dirty : List ℕ := []
  phase : Phase := .idle
  nextKeepalive : Instant
  keepalive : Duration
  dropped : ℕ := 0
  os : P.Os
  clock : Instant
  serial : ℕ := 0
  log : List Entry := []

abbrev WorkerM (P : Platform) := EStateM Panic (Worker P)

def Timer.le (a b : Timer) : Prop := a.1 < b.1 ∨ (a.1 = b.1 ∧ a.2 ≤ b.2)

instance : DecidableRel Timer.le := fun a b => by unfold Timer.le; infer_instance

def bytes (s : String) : Body := s.toUTF8.toList

def echoPath : String := "/echo"

def requestHeaders (method authority : String) (len : Option ℕ) : List Header :=
  [(bytes ":method", bytes method), (bytes ":scheme", bytes "https"),
    (bytes ":authority", bytes authority), (bytes ":path", bytes echoPath)] ++
  match len with
  | some n => [(bytes "content-type", bytes "application/octet-stream"),
      (bytes "content-length", bytes (toString n))]
  | none => []

variable {P : Platform}

/-- The earlier of two instants, either of which may be missing. -/
def earlier (t : Option Instant) : Option Instant → Option Instant
  | none => t
  | some x => some (t.elim x (min x))

/-- When a connection wants to be woken: quiche's timer, or the deadline of the dial attempt. -/
def Conn.timeout (c : Conn P) : Option Instant := earlier (P.timeoutInstant c.q) c.attemptDeadline

namespace Worker

/-- `Worker::new`, at the instant `now`. -/
def new (cfg : EngineConfig) (os : P.Os) (now : Instant) : Worker P where
  cfg := cfg
  getHeaders := requestHeaders "GET" cfg.authority none
  nextKeepalive := now + second
  keepalive := max (cfg.idleTimeout / 4) second
  os := os
  clock := now

def refusals (w : Worker P) : ℕ := w.log.countP Entry.isRefusal

/-- The connection in slot `i`, if there is one. -/
def conn (w : Worker P) (i : ℕ) : Option (Conn P) := (w.slots[i]?).join

def put (w : Worker P) (i : ℕ) (c : Conn P) : Worker P :=
  { w with slots := w.slots.set i (some c) }

/-- `mark_dirty` on the connection `c` that slot `i` is left with. -/
def putDirty (w : Worker P) (i : ℕ) (c : Conn P) : Worker P :=
  { w with
    slots := w.slots.set i (some { c with dirty := true })
    dirty := if c.dirty then w.dirty else i :: w.dirty }

def pushTimer (w : Worker P) (t : Timer) : Worker P :=
  { w with timers := w.timers.orderedInsert Timer.le t }

def schedule (w : Worker P) (i : ℕ) : Worker P :=
  match w.conn i with
  | none => w
  | some c => match c.timeout with
    | none => w.put i { c with deadline := none }
    | some d =>
      if c.scheduled.all (fun s => d < s) then
        (w.put i { c with deadline := some d, scheduled := some d }).pushTimer (d, i)
      else w.put i { c with deadline := some d }

end Worker
end Http3Bench
