import Http3Bench.Platform

/-!
# A connection and the HTTP/3 side of it

`Conn` of `benchcli-rust/src/engine.rs` with the functions that act on one connection alone: the
part of `try_send` below the worker, `process_conn`, `fail_streams` and the send loop of `flush`.

Four fields are history: the ticket a BenchEcho request carries, the identity `id` of a dial job
and `uid` of a `Conn`, and the `cause` of a response. No function of the client reads them.
-/

namespace Http3Bench

inductive State
  | connecting
  | ready
  | broken
  deriving DecidableEq

inductive Purpose
  | new
  /-- The round trip that found its connection broken: its start and its ticket. -/
  | redialEcho (start : Instant) (ticket : ℕ)
  | redialRate
  deriving DecidableEq

structure DialJob where
  start : Instant
  attempt : ℕ
  purpose : Purpose
  slot : Option ℕ
  id : ℕ
  deriving DecidableEq

inductive ReqKind
  | dial
  | echo (start : Instant) (ticket : ℕ)
  | rate
  deriving DecidableEq

structure Req where
  kind : ReqKind
  expect : Body
  status : ℕ := 0
  got : ℕ := 0
  mismatch : Bool := false
  deriving DecidableEq

structure PendingBody where
  stream : ℕ
  body : Body
  off : ℕ
  deriving DecidableEq

inductive SendError
  | blocked (e : String)
  | failed (e : String)
  deriving DecidableEq

/-- How a request ended: its stream finished, was reset, or went down with the connection; or it
was refused when it was taken off the queue. -/
inductive Cause
  | finished
  | reset
  | closed
  | refused
  deriving DecidableEq

inductive ConnEvent
  | established
  | response (kind : ReqKind) (result : Except String ℕ) (cause : Cause)
  | closed (reason : String)
  deriving DecidableEq

structure Conn (P : Platform) where
  sock : Sock
  q : P.Q
  h3 : Option P.H3 := none
  localAddr : SocketAddr
  peer : SocketAddr
  state : State := .connecting
  dial : Option DialJob
  attemptDeadline : Option Instant
  streams : AList (fun _ : ℕ => Req) := ∅
  pending : List PendingBody := []
  queued : List (ReqKind × Body) := []
  deadline : Option Instant := none
  scheduled : Option Instant := none
  lastActive : Instant
  dirty : Bool := false
  inFlight : ℕ := 0
  goaway : Bool := false
  socketError : Option String := none
  uid : ℕ

/-- `{:#x}`. -/
def hex (n : ℕ) : String := "0x" ++ String.ofList (Nat.toDigits 16 n)

/-- `str::parse::<u16>` on the bytes of a header value. -/
def parseU16 (b : Body) : Option ℕ :=
  let digits := match b with
    | 43 :: rest => rest
    | _ => b
  if digits ≠ [] ∧ digits.all (fun d => 48 ≤ d ∧ d ≤ 57) then
    let v := digits.foldl (fun acc d => 10 * acc + (d.toNat - 48)) 0
    if v ≤ 65535 then some v else none
  else none

/-- `:status`. -/
def statusName : Body := [58, 115, 116, 97, 116, 117, 115]

namespace Req

def readHeaders (list : List Header) (r : Req) : Req :=
  list.foldl (fun r h => if h.1 = statusName then { r with status := (parseU16 h.2).getD 0 } else r) r

def readBody (check : Bool) (r : Req) (buf : Body) : Req :=
  let stop := r.got + buf.length
  { r with
    mismatch := r.mismatch ||
      (check && (decide (r.expect.length < stop) ||
        decide ((r.expect.drop r.got).take buf.length ≠ buf)))
    got := stop }

/-- What a finished stream answers its request with. -/
def result (r : Req) : Except String ℕ :=
  if r.status ≠ 200 then .error ("status " ++ toString r.status)
  else if r.got ≠ r.expect.length then
    .error ("response body is " ++ toString r.got ++ " bytes, want " ++ toString r.expect.length)
  else if r.mismatch then .error "response body is not equal to the request's"
  else .ok r.got

end Req

variable {P : Platform}

def closeReason (q : P.Q) : String :=
  if P.isTimedOut q then "idle timeout"
  else match P.peerError q with
    | some e => "closed by the server: code " ++ hex e.1 ++ " " ++ e.2
    | none => match P.localError q with
      | some e => "closed here: code " ++ hex e.1 ++ " " ++ e.2
      | none => "closed"

namespace Conn

/-- Replaces the request of stream `sid`, if it is recorded. -/
def updateReq (c : Conn P) (sid : ℕ) (f : Req → Req) : Conn P :=
  match c.streams.lookup sid with
  | some r => { c with streams := c.streams.insert sid (f r) }
  | none => c

def failStreams (c : Conn P) (reason : String) : Conn P × List ConnEvent :=
  let failed := fun kind => ConnEvent.response kind (.error ("connection closed: " ++ reason)) .closed
  ({ c with pending := [], queued := [], streams := ∅ },
    c.queued.map (fun r => failed r.1) ++
      (P.drainOrder c.streams.entries).map (fun e => failed e.2.kind))

/-- `fail_streams` followed by the `Closed` event. -/
def shut (c : Conn P) (reason : String) : Conn P × List ConnEvent :=
  ((c.failStreams reason).1, (c.failStreams reason).2 ++ [.closed reason])

def onEvent (check : Bool) (c : Conn P) : ℕ × H3Event → Conn P × List ConnEvent
  | (sid, .headers list) => (c.updateReq sid (Req.readHeaders list), [])
  | (sid, .data reads) => (c.updateReq sid (fun r => reads.foldl (Req.readBody check) r), [])
  | (sid, .finished) =>
    match c.streams.lookup sid with
    | some r => ({ c with streams := c.streams.erase sid }, [.response r.kind r.result .finished])
    | none => (c, [])
  | (sid, .reset code) =>
    let c := { c with pending := c.pending.filter (fun p => p.stream ≠ sid) }
    match c.streams.lookup sid with
    | some r => ({ c with streams := c.streams.erase sid },
        [.response r.kind (.error ("stream reset: " ++ hex code)) .reset])
    | none => (c, [])
  | (_, .goAway) => ({ c with goaway := true }, [])
  | (_, .priorityUpdate) => (c, [])

def onEvents (check : Bool) (c : Conn P) : List (ℕ × H3Event) → Conn P × List ConnEvent
  | [] => (c, [])
  | ev :: rest =>
    let r := c.onEvent check ev
    let t := onEvents check r.1 rest
    (t.1, r.2 ++ t.2)

/-- One pass over the bodies that did not fit in their stream's window when they were sent. -/
def resume (h : P.H3) (q : P.Q) : List PendingBody → P.H3 × P.Q × List PendingBody
  | [] => (h, q, [])
  | p :: rest =>
    let a := P.sendBody p.stream (p.body.drop p.off) true h q
    let t := resume a.2.1 a.2.2 rest
    match a.1 with
    | .ok n =>
      if p.off + n < p.body.length then (t.1, t.2.1, { p with off := p.off + n } :: t.2.2) else t
    | .error .done => (t.1, t.2.1, p :: t.2.2)
    | .error _ => t

/-- The loop over `h3.poll` of `process_conn`. -/
def polled (check : Bool) (h : P.H3) (c : Conn P) : Conn P × List ConnEvent :=
  onEvents check { c with h3 := some (P.pollAll h c.q).2.1, q := (P.pollAll h c.q).2.2 }
    (P.pollAll h c.q).1.1

/-- The QUIC connection after that loop: an error of `h3.poll` closes it. -/
def polledQ (h : P.H3) (c : Conn P) : P.Q :=
  match (P.pollAll h c.q).1.2 with
  | some e => P.close true 0x101 e.text (P.pollAll h c.q).2.2
  | none => (P.pollAll h c.q).2.2

/-- The connection once the bodies still to be sent have had their turn. -/
def resumed (check : Bool) (h : P.H3) (c : Conn P) : Conn P :=
  let s := resume (P.pollAll h c.q).2.1 (c.polledQ h) (c.polled check h).1.pending
  { (c.polled check h).1 with h3 := some s.1, q := s.2.1, pending := s.2.2 }

/-- The part of `process_conn` that has an HTTP/3 connection: its events, then the bodies still
to be sent, then the connection closing meanwhile. -/
def readH3 (check : Bool) (h : P.H3) (c : Conn P) : Conn P × List ConnEvent :=
  if P.isClosed (c.resumed check h).q then
    (((c.resumed check h).shut (closeReason (c.resumed check h).q)).1,
      (c.polled check h).2 ++ ((c.resumed check h).shut (closeReason (c.resumed check h).q)).2)
  else (c.resumed check h, (c.polled check h).2)

/-- The HTTP/3 setup of `process_conn`; an error is its early return. -/
def setupH3 (c : Conn P) : Except (Conn P × List ConnEvent) (Conn P × List ConnEvent) :=
  if c.h3.isNone ∧ P.isEstablished c.q then
    match P.withTransport c.q with
    | (.ok h, q) =>
      .ok ({ c with h3 := some h, q := q }, if c.state = .connecting then [.established] else [])
    | (.error e, q) =>
      .error ({ c with q := P.close true 0x101 "" q }, [.closed ("HTTP/3 setup: " ++ e)])
  else .ok (c, [])

def processConn (check : Bool) (c : Conn P) : Conn P × List ConnEvent :=
  match c.socketError with
  | some err =>
    ({ c with
        socketError := none
        q := if P.isClosed c.q then c.q else P.close false 0x1 "" c.q } : Conn P).shut err
  | none =>
    if P.isClosed c.q then c.shut (closeReason c.q)
    else match c.setupH3 with
      | .error r => r
      | .ok r => match r.1.h3 with
        | none => r
        | some h => ((r.1.readH3 check h).1, r.2 ++ (r.1.readH3 check h).2)

end Conn
end Http3Bench
