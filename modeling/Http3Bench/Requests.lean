import Http3Bench.Worker

/-!
# Requests, their ends, and dialing's ends

`echo_done`, `dial_failed_job`, `dial_failed`, `try_send`, `send_request`, `dial_ok`, `response`,
`send_queued` and `process`. None of them dials: a failed attempt goes to the retry queue, so none
of them runs itself again.
-/

namespace Http3Bench

variable {P : Platform} {β : Type}

def startsWith (p s : String) : Bool := p.toList.isPrefixOf s.toList

def Worker.wait (w : Worker P) (o : P.Os) (t : Duration) : Worker P :=
  { w with os := o, clock := w.clock + t }

/-- A call to the platform. -/
def osCall (f : P.Os → β × P.Os) : WorkerM P β :=
  modifyGet fun w => ((f w.os).1, w.wait (f w.os).2 0)

/-- `Instant::now()`. -/
def instantNow : WorkerM P Instant :=
  modifyGet fun w =>
    (w.clock + (P.elapsed w.os).1, w.wait (P.elapsed w.os).2 (P.elapsed w.os).1)

/-- `self.slots[idx]`. -/
def slotAt (idx : ℕ) : WorkerM P (Option (Conn P)) := do
  let w ← get
  match w.slots[idx]? with
  | none => throw .index
  | some s => return s

/-- `self.slots[idx].as_mut().unwrap()`. -/
def unwrapSlot (idx : ℕ) : WorkerM P (Conn P) := do
  match ← slotAt idx with
  | none => throw .unwrap
  | some c => return c

def Latencies.add (l : Latencies) (cost : ℕ) : Except String ℕ → Latencies
  | .ok _ => l.ok cost
  | .error e => l.fail e

/-- A round trip on slot `idx` is over. -/
def EchoPhase.complete (e : EchoPhase) (idx : ℕ) (result : Except String ℕ) (cost n : ℕ) : EchoPhase :=
  { e with
    inFlight := e.inFlight - 1
    idle := e.idle ++ [idx]
    lat := if e.job.measure then e.lat.add cost result else e.lat
    completed := n :: e.completed }

def echoDone (idx : ℕ) (result : Except String ℕ) (start : Instant) (n : ℕ) : WorkerM P Unit := do
  let now ← instantNow
  let w ← get
  match w.phase with
  | .echo e =>
    if e.inFlight = 0 then throw .underflow
    else set { w with phase := .echo (e.complete idx result (now - start) n) }
  | _ => pure ()

def DialPhase.failed (d : DialPhase) (err : String) : DialPhase :=
  { d with active := d.active - 1, lat := d.lat.fail err }

def DialPhase.connected (d : DialPhase) (cost : ℕ) : DialPhase :=
  { d with active := d.active - 1, lat := d.lat.ok cost }

def Worker.retry (w : Worker P) (now : Instant) (job : DialJob) : Worker P :=
  { w with
    retries := w.retries ++
      [(now + w.cfg.dialRetryInterval, { job with attempt := job.attempt + 1 })] }

/-- A redial for BenchMultiplex is settled, one way or the other. -/
def settleRate : WorkerM P Unit := do
  let w ← get
  match w.phase with
  | .ratePrep job redials f =>
    if redials = 0 then throw .underflow else set { w with phase := .ratePrep job (redials - 1) f }
  | _ => pure ()

def dialFailedJob (job : DialJob) (err : String) : WorkerM P Unit := do
  let w ← get
  if job.attempt < w.cfg.dialRetries then do
    let now ← instantNow
    modify fun w => w.retry now job
  else match job.purpose with
    | .new => match w.phase with
      | .dial d =>
        if d.active = 0 then throw .underflow else set { w with phase := .dial (d.failed err) }
      | _ => pure ()
    | .redialEcho start n => match job.slot with
      | some idx => echoDone idx (.error ("redial: " ++ err)) start n
      | none => pure ()
    | .redialRate => settleRate

/-- What `dial_failed` leaves of a connection. -/
def Conn.broke (c : Conn P) : Conn P :=
  { c with
    dial := none
    state := .broken
    attemptDeadline := none
    streams := ∅
    pending := []
    queued := [] }

/-- A new connection that never came up leaves nothing behind. -/
def Worker.drop (w : Worker P) (idx : ℕ) (c : Conn P) : Worker P :=
  { w with
    slots := w.slots.set idx none
    free := idx :: w.free
    os := P.deregister c.sock w.os }

def dialFailed (idx : ℕ) (err : String) : WorkerM P Unit := do
  match ← slotAt idx with
  | none => pure ()
  | some c => match c.dial with
    | none => pure ()
    | some job =>
      if job.purpose = .new then do
        modify fun w => w.drop idx c
        dialFailedJob { job with slot := none } err
      else do
        modify fun w => w.put idx c.broke
        dialFailedJob job err

/-- What a call of `try_send` with the outcome `s` adds to the history. -/
def Sent.entries (s : Sent P) (uid : ℕ) (kind : ReqKind) : List Entry :=
  (match s.result with
    | .error (.failed _) => [.failed uid]
    | _ => []) ++ (if s.hard then [.hardError uid kind] else []) ++ [.trySend uid]

/-- The worker after `try_send` on the connection `c` of slot `idx` ended in `s`. -/
def Worker.afterSend (w : Worker P) (idx : ℕ) (kind : ReqKind) (c : Conn P) (s : Sent P) : Worker P :=
  let w := { w with log := s.entries c.uid kind ++ w.log }
  if s.dirty then w.putDirty idx s.conn else w.put idx s.conn

def Worker.headersFor (w : Worker P) (kind : ReqKind) : List Header :=
  if kind = .dial then w.getHeaders else w.postHeaders

def trySend (idx : ℕ) (kind : ReqKind) (body : Body) : WorkerM P (Except SendError Unit) := do
  let c ← unwrapSlot idx
  let w ← get
  let s := c.trySend (w.headersFor kind) kind body
  set (w.afterSend idx kind c s)
  return s.result

def sendRequest (idx : ℕ) (kind : ReqKind) (body : Body) : WorkerM P (Except String Unit) := do
  let c ← unwrapSlot idx
  if kind ≠ .rate ∧ c.queued ≠ [] then do
    modify fun w => w.put idx { c with queued := c.queued ++ [(kind, body)] }
    return .ok ()
  else match ← trySend idx kind body with
    | .ok () => return .ok ()
    | .error (.blocked e) =>
      if kind = .rate then return .error e
      else do
        let c ← unwrapSlot idx
        modify fun w => w.put idx { c with queued := c.queued ++ [(kind, body)] }
        return .ok ()
    | .error (.failed e) => return .error e

/-- What `dial_ok` makes of a connection. -/
def Conn.up (c : Conn P) : Conn P :=
  { c with dial := none, state := .ready, attemptDeadline := none }

def Worker.up (w : Worker P) (idx : ℕ) (c : Conn P) (job : DialJob) : Worker P :=
  { w.put idx c.up with
    ready := w.ready + 1
    log := .up job.purpose :: w.log }

def Worker.countConnected (w : Worker P) : Worker P :=
  { w with shared := { w.shared with connected := w.shared.connected + 1 } }

def dialOk (idx : ℕ) : WorkerM P Unit := do
  let c ← unwrapSlot idx
  match c.dial with
  | none => pure ()
  | some job => do
    modify fun w => w.up idx c job
    match job.purpose with
    | .new => do
      modify Worker.countConnected
      let w ← get
      match w.phase with
      | .dial d =>
        if d.active = 0 then throw .underflow
        else do
          let now ← instantNow
          modify fun w => { w with phase := .dial (d.connected (now - job.start)) }
      | _ => pure ()
    | .redialEcho start n => do
      let w ← get
      match w.phase with
      | .echo e => match e.job.payloads.head? with
        | none => throw .noPayload
        | some payload => match ← sendRequest idx (.echo start n) payload with
          | .ok () => pure ()
          | .error e => echoDone idx (.error e) start n
      | _ => pure ()
    | .redialRate => settleRate

/-- Responses to a benchmark that has already been counted are left out of it. -/
def RatePhase.answer (r : RatePhase) (result : Except String ℕ) (cause : Cause) : RatePhase :=
  { r with
    counts := match result with
      | .ok n => { r.counts with
          answered := r.counts.answered + 1
          recvTimes := r.counts.recvTimes + 1
          recvBytes := r.counts.recvBytes + n }
      | .error e =>
        if startsWith "status " e ∨ startsWith "response body" e then
          { r.counts with answered := r.counts.answered + 1 }
        else r.counts
    finished := if cause = .finished then r.finished + 1 else r.finished
    ended := if cause = .finished then r.ended else r.ended + 1 }

def Phase.answer (p : Phase) (result : Except String ℕ) (cause : Cause) : Phase :=
  match p with
  | .rate r => .rate (r.answer result cause)
  | p => p

/-- The `ReqKind::Rate` branch of `response`, with the connection its slot holds. -/
def Worker.rateResponse (w : Worker P) (idx : ℕ) (s : Option (Conn P)) (result : Except String ℕ)
    (cause : Cause) : Worker P :=
  { w with
    slots := s.elim w.slots (fun c =>
      w.slots.set idx (some { c with inFlight := c.inFlight - 1 }))
    phase := w.phase.answer result cause }

def response (idx : ℕ) (kind : ReqKind) (result : Except String ℕ) (cause : Cause) :
    WorkerM P Unit :=
  match kind with
  | .dial => match result with
    | .ok _ => dialOk idx
    | .error e => dialFailed idx e
  | .echo start n => echoDone idx result start n
  | .rate => do
    let s ← slotAt idx
    modify fun w => w.rateResponse idx s result cause

/-- `send_queued` on a connection with fewer than `fuel` requests in its queue: every turn takes
one off. -/
def sendQueuedWithin (idx : ℕ) : ℕ → WorkerM P Unit
  | 0 => pure ()
  | fuel + 1 => do
    match ← slotAt idx with
    | none => pure ()
    | some c =>
      if P.isClosed c.q then pure ()
      else match c.queued with
        | [] => pure ()
        | (kind, body) :: rest => do
          modify fun w => w.put idx { c with queued := rest }
          match ← trySend idx kind body with
          | .ok () => sendQueuedWithin idx fuel
          | .error (.blocked _) => do
            let c ← unwrapSlot idx
            modify fun w => w.put idx { c with queued := (kind, body) :: c.queued }
          | .error (.failed e) => do
            response idx kind (.error e) .refused
            sendQueuedWithin idx fuel

def sendQueued (idx : ℕ) : WorkerM P Unit := do
  let w ← get
  sendQueuedWithin idx ((w.conn idx).elim 0 (fun c => c.queued.length) + 1)

/-- The `Closed` event, with the connection its slot holds. -/
def closed (idx : ℕ) (reason : String) : WorkerM P Unit := do
  match ← slotAt idx with
  | none => pure ()
  | some c => match c.state with
    | .connecting => dialFailed idx reason
    | .ready => modify fun w => { w.put idx { c with state := .broken } with ready := w.ready - 1 }
    | .broken => pure ()

def handle (idx : ℕ) : ConnEvent → WorkerM P Unit
  | .established => do
    match ← sendRequest idx .dial [] with
    | .ok () => pure ()
    | .error e => dialFailed idx e
  | .response kind result cause => response idx kind result cause
  | .closed reason => closed idx reason

def handleAll (idx : ℕ) : List ConnEvent → WorkerM P Unit
  | [] => pure ()
  | ev :: rest => do
    handle idx ev
    handleAll idx rest

def process (idx : ℕ) : WorkerM P Unit := do
  let w ← get
  match w.conn idx with
  | none => pure ()
  | some c => do
    set (w.putDirty idx (c.processConn w.cfg.check).1)
    handleAll idx (c.processConn w.cfg.check).2
    sendQueued idx

end Http3Bench
