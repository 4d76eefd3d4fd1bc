import Http3Bench.Requests

/-!
# Dialing, timers and socket I/O

`flush`, `try_dial` and `dial`, and one turn of each loop of the worker that may run for any
number of turns: `fire_timers`, `fire_retries` and `flush_dirty`. A turn returns whether the loop
goes on.
-/

namespace Http3Bench

variable {P : Platform}

def note (e : Entry) : WorkerM P Unit := modify fun w => { w with log := e :: w.log }

/-- The worker after the send loop of `flush` ended in `r` on slot `idx`. -/
def Worker.flushed (w : Worker P) (idx : ℕ) (r : Conn P × Bool × ℕ) (now : Instant) : Worker P :=
  ({ w with
      dropped := w.dropped + r.2.2
      log := if r.1.socketError.isSome then .refused :: w.log else w.log }.put idx
    (if r.2.1 then { r.1 with lastActive := now } else r.1)).schedule idx

def flush (idx : ℕ) : WorkerM P Unit := do
  let w ← get
  match w.conn idx with
  | none => pure ()
  | some c => do
    let answers ← osCall (P.sendAnswers c.sock)
    let r := ({ c with dirty := false } : Conn P).sendLoop false answers
    let now ← instantNow
    modify fun w => w.flushed idx r now
    if r.1.socketError.isSome then process idx else pure ()

def flushDirtyTurn : WorkerM P Bool := do
  let w ← get
  match w.dirty with
  | [] => return false
  | idx :: rest => do
    set { w with dirty := rest }
    if (w.conn idx).any (fun c => c.dirty) then flush idx else pure ()
    return true

def Worker.allocSlot (w : Worker P) : ℕ × Worker P :=
  match w.free with
  | i :: rest => (i, { w with free := rest })
  | [] => (w.slots.length, { w with slots := w.slots ++ [none] })

/-- The connection in slot `i`, if any, leaves it for the one dialed again. -/
def Worker.evict (w : Worker P) (i : ℕ) : Worker P :=
  { w with
    slots := w.slots.set i none
    os := (w.conn i).elim w.os (fun old => P.deregister old.sock w.os)
    ready := if (w.conn i).any (fun old => old.state = .ready) then w.ready - 1 else w.ready }

/-- The slot a job is dialed into, taken. -/
def Worker.takeSlot (w : Worker P) : Option ℕ → ℕ × Worker P
  | some i => (i, w.evict i)
  | none => w.allocSlot

def takeSlot (slot : Option ℕ) : WorkerM P ℕ := do
  let w ← get
  if slot.any (fun i => w.slots.length ≤ i) then throw .index
  else do
    set (w.takeSlot slot).2
    return (w.takeSlot slot).1

/-- The bounds check of `self.slots[idx] = ..`. -/
def checkSlot (idx : ℕ) : WorkerM P Unit := do
  let w ← get
  if idx < w.slots.length then pure () else throw .index

structure Dialed (P : Platform) where
  sock : Sock
  localAddr : SocketAddr
  peer : SocketAddr
  q : P.Q

/-- The part of `try_dial` before a slot is touched. -/
def openSocket (peer : SocketAddr) : WorkerM P (Except String (Dialed P)) := do
  let w ← get
  match ← osCall (P.bind (if peer.ipv4 then "0.0.0.0:0" else "[::]:0")) with
  | .error e => return .error ("bind: " ++ e)
  | .ok sock => match ← osCall (P.connect sock peer) with
    | .error e => return .error ("connect " ++ peer.text ++ ": " ++ e)
    | .ok () => match ← osCall (P.localAddr sock) with
      | .error e => return .error e
      | .ok localAddr => match ← osCall (P.quicheConnect w.cfg.serverName localAddr peer) with
        | .error e => return .error ("quiche connect: " ++ e)
        | .ok q => return .ok ⟨sock, localAddr, peer, q⟩

/-- The connection `try_dial` puts in slot `idx`. -/
def Dialed.conn (d : Dialed P) (idx : ℕ) (job : DialJob) (timeout : Duration) (now : Instant)
    (uid : ℕ) : Conn P where
  sock := d.sock
  q := d.q
  localAddr := d.localAddr
  peer := d.peer
  dial := some { job with slot := some idx }
  attemptDeadline := some (now + timeout)
  lastActive := now
  uid := uid

def Worker.install (w : Worker P) (idx : ℕ) (d : Dialed P) (job : DialJob) (now : Instant) : Worker P :=
  { w.put idx (d.conn idx job w.cfg.dialTimeout now w.serial) with serial := w.serial + 1 }

/-- The address counter moves on, and the attempt goes into the history. -/
def Worker.countAttempt (w : Worker P) (job : DialJob) : Worker P :=
  { w with
    shared := { w.shared with addrCounter := w.shared.addrCounter + 1 }
    log := .attempt job.purpose job.id :: w.log }

def nextPeer (job : DialJob) : WorkerM P SocketAddr := do
  let w ← get
  set (w.countAttempt job)
  match w.cfg.addrs[w.shared.addrCounter % w.cfg.addrs.length]? with
  | none => throw .noAddrs
  | some peer => return peer

def tryDial (job : DialJob) : WorkerM P (Except String Unit) := do
  let peer ← nextPeer job
  match ← openSocket peer with
  | .error e => do
    note .refused
    return .error e
  | .ok d => do
    let idx ← takeSlot job.slot
    match ← osCall (P.register d.sock idx) with
    | .error e => do
      note .registerFailed
      return .error ("register: " ++ e)
    | .ok () => do
      let now ← instantNow
      checkSlot idx
      modify fun w => w.install idx d job now
      flush idx
      return .ok ()

def dial (job : DialJob) : WorkerM P Unit := do
  match ← tryDial job with
  | .ok () => pure ()
  | .error e => dialFailedJob job e

def dialAll : List DialJob → WorkerM P Unit
  | [] => pure ()
  | job :: rest => do
    dial job
    dialAll rest

def fireRetriesTurn (now : Instant) : WorkerM P Bool := do
  let w ← get
  match w.retries with
  | [] => return false
  | (t, job) :: rest =>
    if now < t then return false
    else do
      set { w with retries := rest }
      dial job
      return true

/-- The worker once the timer of the connection `c` in slot `idx` is taken off the heap. -/
def Worker.popTimer (w : Worker P) (rest : List Timer) (idx : ℕ) (c : Conn P) : Worker P :=
  { w with timers := rest }.put idx { c with scheduled := none }

/-- A connection whose timer fires. -/
def Conn.timedOut (c : Conn P) (now : Instant) : Conn P :=
  { c with scheduled := none, q := P.onTimeout now c.q }

def fireTimersTurn (now : Instant) : WorkerM P Bool := do
  let w ← get
  match w.timers with
  | [] => return false
  | (t, idx) :: rest =>
    if now < t then return false
    else match w.conn idx with
      | none => do
        set { w with timers := rest }
        return true
      | some c =>
        if c.scheduled ≠ some t then do
          set { w with timers := rest }
          return true
        else if ¬ c.deadline.any (fun d => d ≤ now) then do
          set ((w.popTimer rest idx c).schedule idx)
          return true
        else if c.state = .connecting ∧ c.attemptDeadline.any (fun a => a ≤ now) then do
          set (w.popTimer rest idx c)
          dialFailed idx
            (if P.isEstablished c.q then "timeout waiting for the first response"
              else "handshake timeout")
          return true
        else do
          set ((w.popTimer rest idx c).putDirty idx (c.timedOut now))
          process idx
          return true

/-- The connection after the datagrams of one `on_readable`. -/
def Conn.received (c : Conn P) (ds : List Body × Option String) (now : Instant) : Conn P :=
  { c with
    q := ds.1.foldl (fun q d => P.recv c.peer c.localAddr d q) c.q
    socketError := (ds.2.map (fun e => "recv: " ++ e)).orElse (fun _ => c.socketError)
    lastActive := if ds.1 = [] then c.lastActive else now }

def onReadable (idx : ℕ) : WorkerM P Unit := do
  let w ← get
  match w.conn idx with
  | none => pure ()
  | some c => do
    let ds ← osCall (P.recvAll c.sock)
    let now ← instantNow
    modify fun w => w.put idx (c.received ds now)
    process idx

def keepaliveFrom (now : Instant) : List ℕ → WorkerM P Unit
  | [] => pure ()
  | idx :: rest => do
    match ← slotAt idx with
    | none => keepaliveFrom now rest
    | some c => do
      let w ← get
      if c.state = .ready ∧ c.streams.entries = [] ∧ w.keepalive ≤ now - c.lastActive then
        set (w.putDirty idx { c with q := P.sendAckEliciting c.q })
      else pure ()
      keepaliveFrom now rest

def keepalive (now : Instant) : WorkerM P Unit := do
  let w ← get
  if now < w.nextKeepalive then pure ()
  else do
    set { w with nextKeepalive := now + second }
    keepaliveFrom now (List.range w.slots.length)

/-- `H3_NO_ERROR`. -/
def h3NoError : ℕ := 0x100

def closeFrom : List ℕ → WorkerM P Unit
  | [] => pure ()
  | idx :: rest => do
    match ← slotAt idx with
    | none => closeFrom rest
    | some c => do
      if P.isClosed c.q then pure ()
      else do
        modify fun w => w.put idx { c with q := P.close true h3NoError "" c.q }
        flush idx
      closeFrom rest

def closeAll : WorkerM P Unit := do
  let w ← get
  closeFrom (List.range w.slots.length)

end Http3Bench
