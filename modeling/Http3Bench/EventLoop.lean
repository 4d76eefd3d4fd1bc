import Http3Bench.Dialing

/-!
# Commands, the benchmarks and the event loop

`Worker::run` is a program with a point of control. A turn of the machine runs from one point to
the next: each of the loops `fire_timers`, `fire_retries`, `drive_echo` and `flush_dirty` takes one
turn per iteration, so that between two `fetch_add`s of a worker on the shared ticket counter any
other worker can take a turn.
-/

namespace Http3Bench

variable {P : Platform}

def finish (o : Outcome) : WorkerM P Unit :=
  modify fun w => { w with phase := .idle, sent := w.sent ++ [o] }

/-- A first attempt; every dial job made gets an identity of its own. -/
def newJob (start : Instant) (purpose : Purpose) (slot : Option ℕ) : WorkerM P DialJob :=
  modifyGet fun w => (⟨start, 1, purpose, slot, w.serial⟩, { w with serial := w.serial + 1 })

/-- First attempts with the identities from `serial` on. -/
def mkJobs (start : Instant) (purpose : Purpose) : ℕ → List (Option ℕ) → List DialJob
  | _, [] => []
  | serial, slot :: rest => ⟨start, 1, purpose, slot, serial⟩ :: mkJobs start purpose (serial + 1) rest

def newJobs (start : Instant) (purpose : Purpose) (slots : List (Option ℕ)) :
    WorkerM P (List DialJob) :=
  modifyGet fun w =>
    (mkJobs start purpose w.serial slots, { w with serial := w.serial + slots.length })

namespace Worker

/-- The slots whose connection satisfies `p`, in order. -/
def slotsWhere (w : Worker P) (p : Conn P → Bool) : List ℕ :=
  (List.range w.slots.length).filter (fun i => (w.conn i).any p)

def occupied (w : Worker P) : List ℕ := w.slotsWhere (fun _ => true)

def broken (w : Worker P) : List ℕ := w.slotsWhere (fun c => c.state = .broken)

def serving (w : Worker P) : List ℕ := w.slotsWhere (fun c => c.state = .ready)

def setPostHeaders (w : Worker P) (len : ℕ) : Worker P :=
  { w with
    postHeaders := if w.postLen = some len then w.postHeaders
      else requestHeaders "POST" w.cfg.authority (some len)
    postLen := some len }

end Worker

/-- The phase a worker with the occupied slots `idle` starts on `Command::Echo`. -/
def EchoPhase.start (job : EchoJob) (concurrency : ℕ) (idle : List ℕ) : EchoPhase where
  job := job
  slots := min concurrency idle.length
  idle := idle
  exhausted := min concurrency idle.length = 0
  captured := idle

def Worker.startEcho (w : Worker P) (job : EchoJob) (concurrency : ℕ) : Worker P :=
  let w := w.setPostHeaders ((job.payloads.head?).elim 0 List.length)
  { w with phase := .echo (EchoPhase.start job concurrency w.occupied) }

def start : Command → WorkerM P Unit
  | .dial count concurrency =>
    modify fun w => { w with phase := .dial { remaining := count, concurrency } }
  | .echo job concurrency => modify fun w => w.startEcho job concurrency
  | .rate job => do
    modify fun w => w.setPostHeaders job.payload.length
    let broken := (← get).broken
    let now ← instantNow
    let jobs ← newJobs now .redialRate (broken.map some)
    let before := (← get).refusals
    dialAll jobs
    modify fun w => { w with phase := .ratePrep job broken.length (w.refusals - before) }
  | .stop => pure ()

/-- `Limiter::take` for a job that may have no limiter. -/
def limiterTake (limited : Bool) (n : ℕ) : WorkerM P (Option Duration) :=
  if limited then osCall (P.limiterTake n) else pure none

/-- `job.issued.fetch_add(1)`. -/
def Worker.fetchIssued (w : Worker P) : Worker P :=
  { w with shared := { w.shared with issued := w.shared.issued + 1 } }

def fetchIssued : WorkerM P ℕ := modifyGet fun w => (w.shared.issued, w.fetchIssued)

def EchoPhase.overdraw (e : EchoPhase) (n : ℕ) : EchoPhase :=
  { e with exhausted := true, drawn := n :: e.drawn }

def EchoPhase.draw (e : EchoPhase) (rest : List ℕ) (n : ℕ) : EchoPhase :=
  { e with idle := rest, inFlight := e.inFlight + 1, drawn := n :: e.drawn }

/-- The rest of an iteration of `drive_echo`, once ticket `n` of connection `idx` is to be run. -/
def runTicket (e : EchoPhase) (idx n : ℕ) : WorkerM P Unit := do
  match e.job.payloads[n % e.job.payloads.length]? with
  | none => throw .noPayload
  | some payload => do
    let start ← instantNow
    let c ← unwrapSlot idx
    if c.state = .broken then do
      let job ← newJob start (.redialEcho start n) (some idx)
      dial job
    else match ← sendRequest idx (.echo start n) payload with
      | .ok () => pure ()
      | .error e => echoDone idx (.error e) start n

/-- An iteration of `drive_echo` from `idle.pop_front()` on. -/
def drawTicket (e : EchoPhase) : WorkerM P Bool :=
  match e.idle with
  | [] => return false
  | idx :: rest => do
    let n ← fetchIssued
    if e.job.times ≤ n then do
      modify fun w => { w with phase := .echo (e.overdraw n) }
      return true
    else do
      modify fun w => { w with phase := .echo (e.draw rest n) }
      runTicket e idx n
      return true

/-- An iteration of the loop of `drive_echo`; `false` when it returned. -/
def driveEchoTurn (now : Instant) : WorkerM P Bool := do
  let w ← get
  match w.phase with
  | .echo e =>
    if e.exhausted ∧ e.inFlight = 0 then do
      finish (.echo e.lat e)
      return false
    else if e.exhausted ∨ e.slots ≤ e.inFlight then return false
    else if e.waitUntil.any (fun t => now < t) then return false
    else do
      let e := { e with waitUntil := none }
      set { w with phase := .echo e }
      match ← limiterTake e.job.limited 1 with
      | some wait => do
        modify fun w => { w with phase := .echo { e with waitUntil := some (now + wait) } }
        return false
      | none => drawTicket e
  | _ => return false

/-- The requests of one batch on connection `idx`; returns how many `rate_tick` has sent so far. -/
def rateBatch (job : RateJob) (idx : ℕ) : ℕ → ℕ → WorkerM P ℕ
  | 0, sent => return sent
  | k + 1, sent => do
    match ← sendRequest idx .rate job.payload with
    | .error _ => return sent
    | .ok () => do
      let c ← unwrapSlot idx
      modify fun w => w.put idx { c with inFlight := c.inFlight + 1 }
      rateBatch job idx k (sent + 1)

/-- Whether `rate_tick` skips the connection, before it asks the limiter. -/
def skips (job : RateJob) (c : Conn P) : Bool :=
  c.state ≠ .ready || c.goaway || decide (job.batch * maxBatchesInFlight < c.inFlight + job.batch) ||
    decide (P.peerStreamsLeftBidi c.q < job.batch)

def rateConns (job : RateJob) : List ℕ → ℕ → WorkerM P ℕ
  | [], sent => return sent
  | idx :: rest, sent => do
    match ← slotAt idx with
    | none => rateConns job rest sent
    | some c =>
      if skips job c then rateConns job rest sent
      else match ← limiterTake job.limited job.batch with
        | some _ => rateConns job rest sent
        | none => do
          let sent ← rateBatch job idx job.batch sent
          rateConns job rest sent

def RatePhase.addSent (r : RatePhase) (sent : ℕ) : RatePhase :=
  { r with counts := { r.counts with
      sendTimes := r.counts.sendTimes + sent
      sendBytes := r.counts.sendBytes + sent * r.job.payload.length } }

def Phase.addSent (p : Phase) (sent : ℕ) : Phase :=
  match p with
  | .rate r => .rate (r.addSent sent)
  | p => p

def Worker.addSent (w : Worker P) (sent : ℕ) : Worker P := { w with phase := w.phase.addSent sent }

/-- The connections taken out of the phase for the loop are the ones put back after it. -/
def rateTick : WorkerM P Unit := do
  let w ← get
  match w.phase with
  | .rate r => do
    let sent ← rateConns r.job r.conns 0
    modify fun w => w.addSent sent
  | _ => pure ()

/-- Where `while *next_tick <= now { *next_tick += job.tick }` leaves `next_tick`, for a positive
tick. -/
def catchUp (nextTick now tick : ℕ) : ℕ := nextTick + ((now - nextTick) / tick + 1) * tick

def driveRate (now : Instant) : WorkerM P Unit := do
  let w ← get
  match w.phase with
  | .rate r => match r.graceUntil with
    | some grace =>
      if r.counts.sendTimes ≤ r.counts.answered ∨ grace ≤ now then finish (.rate r.counts)
      else pure ()
    | none =>
      if r.deadline ≤ now then
        set { w with phase := .rate { r with graceUntil := some (now + r.job.tick) } }
      else if now < r.nextTick then pure ()
      else if r.job.tick = 0 then throw .spin
      else do
        set { w with phase := .rate { r with nextTick := catchUp r.nextTick now r.job.tick } }
        rateTick
  | _ => pure ()

/-- A connection of BenchMultiplex starts with nothing in flight. -/
def Conn.resetInFlight (c : Conn P) : Conn P :=
  if c.state = .ready then { c with inFlight := 0 } else c

def RatePhase.start (job : RateJob) (conns : List ℕ) (now : Instant) : RatePhase where
  job := job
  conns := conns
  deadline := now + job.duration
  nextTick := now + job.tick

def Worker.startRate (w : Worker P) (job : RateJob) (now : Instant) : Worker P :=
  { w with
    slots := w.slots.map (Option.map Conn.resetInFlight)
    phase := .rate (RatePhase.start job w.serving now) }

def DialPhase.begin (d : DialPhase) (starts : ℕ) : DialPhase :=
  { d with remaining := d.remaining - starts, active := d.active + starts }

/-- `drive`, in the phases other than `Echo`. -/
def drive (now : Instant) : WorkerM P Unit := do
  let w ← get
  match w.phase with
  | .idle => pure ()
  | .dial d =>
    if d.remaining = 0 ∧ d.active = 0 then finish (.dial d.lat)
    else do
      let starts := min d.remaining (d.concurrency - d.active)
      set { w with phase := .dial (d.begin starts) }
      let jobs ← newJobs now .new (List.replicate starts none)
      dialAll jobs
  | .echo _ => pure ()
  | .ratePrep job redials _ =>
    if redials = 0 then set (w.startRate job now) else pure ()
  | .rate _ => driveRate now

/-- The commands waiting in `rx`, of which there are at most `fuel`; returns whether one of them
was `Stop`. -/
def recvCommands : ℕ → Bool → WorkerM P Bool
  | 0, stop => return stop
  | fuel + 1, stop => do
    let w ← get
    match w.rx with
    | [] => return stop
    | cmd :: rest => do
      set { w with rx := rest }
      start cmd
      recvCommands fuel (stop || cmd.isStop)

/-- The events of one poll: commands are run as they come, sockets are collected. -/
def wake : List Token → Bool → List ℕ → WorkerM P (Bool × List ℕ)
  | [], stop, readable => return (stop, readable)
  | .waker :: rest, stop, readable => do
    let w ← get
    let stop ← recvCommands w.rx.length stop
    wake rest stop readable
  | .slot idx :: rest, stop, readable => wake rest stop (readable ++ [idx])

def readAll : List ℕ → WorkerM P Unit
  | [] => pure ()
  | idx :: rest => do
    onReadable idx
    readAll rest

def Phase.wakeup : Phase → Option Instant
  | .echo e => e.waitUntil
  | .rate r => match r.graceUntil with
    | some g => some g
    | none => if r.nextTick < r.deadline then some r.nextTick else some r.deadline
  | _ => none

def Worker.nextWakeup (w : Worker P) : Option Instant :=
  earlier (earlier (earlier (some w.nextKeepalive) (w.timers.head?.map Prod.fst))
    (w.retries.head?.map Prod.fst)) w.phase.wakeup

/-- Where `run` is: about to poll, or in one of its loops with the `now` and `stop` of this
round. -/
inductive Point
  | poll
  | timers (now : Instant) (stop : Bool)
  | retries (now : Instant) (stop : Bool)
  | drive (now : Instant) (stop : Bool)
  | echo (now : Instant) (stop : Bool)
  | dirty (stop : Bool)
  | stopped
  deriving DecidableEq

def Phase.isEcho : Phase → Bool
  | .echo _ => true
  | _ => false

def turn : Point → WorkerM P Point
  | .poll => do
    let w ← get
    let tokens ← osCall (P.poll w.nextWakeup)
    let (stop, readable) ← wake tokens false []
    readAll readable
    let now ← instantNow
    return .timers now stop
  | .timers now stop => do
    if ← fireTimersTurn now then return .timers now stop else return .retries now stop
  | .retries now stop => do
    if ← fireRetriesTurn now then return .retries now stop else return .drive now stop
  | .drive now stop => do
    let w ← get
    if w.phase.isEcho then return .echo now stop
    else do
      drive now
      keepalive now
      return .dirty stop
  | .echo now stop => do
    if ← driveEchoTurn now then return .echo now stop
    else do
      keepalive now
      return .dirty stop
  | .dirty stop => do
    if ← flushDirtyTurn then return .dirty stop
    else if stop then do
      closeAll
      return .stopped
    else return .poll
  | .stopped => return .stopped

end Http3Bench
