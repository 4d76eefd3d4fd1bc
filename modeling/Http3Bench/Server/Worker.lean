import Http3Bench.Connection

/-!
# The quiche server

`frameworks/quiche/src/server.rs`: a worker with its sockets, the QUIC connections that arrive on
them and the table of the connection ids they are known under. As for the client, the kernel, quiche
and its HTTP/3 layer are a parameter; the answers of the kernel to the datagrams of one flush, and
the reads at one `Data` event, are one call.

`Client.seen` and `answered` are history: the events the client's connection has handed out, and the
responses made. The capacity of a request's buffer is left out.
-/

namespace Http3Bench.Server

abbrev ConnectionId := Body

/-- The header of a datagram, as far as the server reads it. -/
structure PacketHeader where
  initial : Bool
  version : ℕ
  dcid : ConnectionId
  scid : ConnectionId

structure ServerPlatform where
  Os : Type
  Q : Type
  H3 : Type
  /-- Whether each `send_to` of one flush succeeds. -/
  sendAnswers : ℕ → Os → List Bool × Os
  sendTo : ℕ → SocketAddr → Os → Os
  /-- Sixteen random bytes. -/
  fill : Os → ConnectionId × Os
  header : Body → Option PacketHeader
  versionIsSupported : ℕ → Bool
  accept : ConnectionId → SocketAddr → SocketAddr → Os → Option Q × Os
  recv : SocketAddr → SocketAddr → Body → Q → Q
  send : Q → QuicheSend × Q
  close : Q → Q
  onTimeout : Q → Q
  isClosed : Q → Bool
  isEstablished : Q → Bool
  isInEarlyData : Q → Bool
  timeoutInstant : Q → Option Instant
  withTransport : Q → Option H3 × Q
  /-- How many events `h3.poll` has at most. -/
  ready : H3 → Q → ℕ
  poll : H3 → Q → Option (ℕ × H3Event) × H3 × Q
  sendResponse : ℕ → List Header → Bool → H3 → Q → Except H3Error Unit × H3 × Q
  sendBody : ℕ → Body → Bool → H3 → Q → Except H3Error ℕ × H3 × Q

/-- What a request body may grow to before the request is refused. -/
def maxBody : ℕ := 16 * 2 ^ 20

structure Req where
  echo : Bool
  body : Body := []
  tooLarge : Bool := false

structure Response where
  status : ℕ
  ctype : String
  body : Body
  deriving DecidableEq

def text (s : String) : Body := s.toUTF8.data.toList

def Response.headers (r : Response) : List Header :=
  [(text ":status", text (toString r.status)), (text "content-type", text r.ctype),
    (text "content-length", text (toString r.body.length))]

/-- A response that did not fit in its stream's window when it was sent. -/
structure Pending where
  stream : ℕ
  headers : Option (List Header)
  body : Body
  off : ℕ := 0

structure Client (P : ServerPlatform) where
  conn : P.Q
  h3 : Option P.H3 := none
  sock : ℕ
  ids : List ConnectionId
  reqs : AList (fun _ : ℕ => Req) := ∅
  pending : List Pending := []
  deadline : Option Instant := none
  scheduled : Option Instant := none
  dirty : Bool := false
  seen : List (ℕ × H3Event) := []
  answered : List (ℕ × Response) := []

abbrev Timer := Instant × ℕ

structure Worker (P : ServerPlatform) where
  /-- The local address of each socket. -/
  sockets : List SocketAddr
  clients : List (Option (Client P)) := []
  free : List ℕ := []
  ids : AList (fun _ : ConnectionId => ℕ) := ∅
  /-- The binary heap, as the list its entries would be popped in. -/
  timers : List Timer := []
  dirty : List ℕ := []
  os : P.Os

def echoPath : Body := text "/echo"

def pathName : Body := text ":path"

/-- Whether the request of a list of headers is for `/echo`: the last `:path` counts. -/
def echoOf (list : List Header) : Bool :=
  list.foldl (fun echo h => if h.1 = pathName then h.2 = echoPath else echo) false

namespace Req

/-- One read of `recv_body`. -/
def read (r : Req) (buf : Body) : Req :=
  if maxBody < r.body.length + buf.length then { r with tooLarge := true }
  else if r.tooLarge then r
  else { r with body := r.body ++ buf }

/-- The response to a request that has arrived whole. -/
def response (r : Req) : Response :=
  if r.tooLarge then ⟨413, "text/plain; charset=utf-8", text "request body too large\n"⟩
  else if r.echo then ⟨200, "application/octet-stream", r.body⟩
  else ⟨404, "text/plain; charset=utf-8", text "404 page not found\n"⟩

end Req

variable {P : ServerPlatform}

/-- What `resume` leaves behind, and whether anything of the response is left. -/
structure Resumed (P : ServerPlatform) where
  h3 : P.H3
  conn : P.Q
  pending : Pending
  keep : Bool

def resumeBody (h : P.H3) (q : P.Q) (p : Pending) : Resumed P :=
  if p.body = [] then ⟨h, q, p, false⟩
  else
    let a := P.sendBody p.stream (p.body.drop p.off) true h q
    match a.1 with
    | .ok n => ⟨a.2.1, a.2.2, { p with off := p.off + n }, p.off + n < p.body.length⟩
    | .error .done => ⟨a.2.1, a.2.2, p, true⟩
    | .error _ => ⟨a.2.1, a.2.2, p, false⟩

/-- Sends what is left of a response. -/
def resume (h : P.H3) (q : P.Q) (p : Pending) : Resumed P :=
  match p.headers with
  | none => resumeBody h q p
  | some headers =>
    let a := P.sendResponse p.stream headers p.body.isEmpty h q
    match a.1 with
    | .ok () => resumeBody a.2.1 a.2.2 { p with headers := none }
    | .error .streamBlocked => ⟨a.2.1, a.2.2, p, true⟩
    | .error _ => ⟨a.2.1, a.2.2, p, false⟩

/-- `pending.retain_mut(|p| resume(h3, conn, p))`. -/
def resumeAll (h : P.H3) (q : P.Q) : List Pending → P.H3 × P.Q × List Pending
  | [] => (h, q, [])
  | p :: rest =>
    let r := resume h q p
    let t := resumeAll r.h3 r.conn rest
    (t.1, t.2.1, if r.keep then r.pending :: t.2.2 else t.2.2)

namespace Client

def respond (c : Client P) (h : P.H3) (stream : ℕ) (r : Response) : Client P :=
  let s := resume h c.conn { stream, headers := some r.headers, body := r.body }
  { c with
    h3 := some s.h3
    conn := s.conn
    pending := if s.keep then c.pending ++ [s.pending] else c.pending
    answered := c.answered ++ [(stream, r)] }

/-- An event of `h3.poll`, with the HTTP/3 connection it leaves. -/
def onEvent (c : Client P) (h : P.H3) (ev : ℕ × H3Event) : Client P :=
  let c := { c with h3 := some h, seen := c.seen ++ [ev] }
  match ev with
  | (sid, .headers list) => { c with reqs := c.reqs.insert sid { echo := echoOf list } }
  | (sid, .data reads) => match c.reqs.lookup sid with
    | some r => { c with reqs := c.reqs.insert sid (reads.foldl Req.read r) }
    | none => c
  | (sid, .finished) => match c.reqs.lookup sid with
    | some r => { c with reqs := c.reqs.erase sid }.respond h sid r.response
    | none => c
  | (sid, .reset _) => { c with
      reqs := c.reqs.erase sid
      pending := c.pending.filter (fun p => p.stream ≠ sid) }
  | (_, .goAway) => c
  | (_, .priorityUpdate) => c

/-- The loop over `h3.poll`. -/
def polled : ℕ → Client P → Client P
  | 0, c => c
  | n + 1, c => match c.h3 with
    | none => c
    | some h =>
      let a := P.poll h c.conn
      match a.1 with
      | none => { c with h3 := some a.2.1, conn := a.2.2 }
      | some ev => polled n ({ c with conn := a.2.2 }.onEvent a.2.1 ev)

/-- The HTTP/3 setup of `process`, which goes on only with an HTTP/3 connection. -/
def setup (c : Client P) : Client P :=
  if c.h3.isNone ∧ (P.isEstablished c.conn ∨ P.isInEarlyData c.conn) then
    { c with h3 := (P.withTransport c.conn).1, conn := (P.withTransport c.conn).2 }
  else c

def resumed (c : Client P) : Client P :=
  match c.h3 with
  | none => c
  | some h =>
    let r := resumeAll h c.conn c.pending
    { c with h3 := some r.1, conn := r.2.1, pending := r.2.2 }

def process (c : Client P) : Client P :=
  match c.setup.h3 with
  | none => c.setup
  | some h => (c.setup.polled (P.ready h c.setup.conn)).resumed

/-- The send loop of `flush`. -/
def sendLoop (c : Client P) (answers : List Bool) : Client P :=
  match P.send c.conn with
  | (.packet, q) => match answers with
    | true :: rest => sendLoop { c with conn := q } rest
    | _ => { c with conn := q }
  | (.done, q) => { c with conn := q }
  | (.failed _, q) => { c with conn := P.close q }
termination_by structural answers

end Client

namespace Worker

def client (w : Worker P) (i : ℕ) : Option (Client P) := (w.clients[i]?).join

/-- Puts a client in its slot and marks it dirty. -/
def putDirty (w : Worker P) (i : ℕ) (c : Client P) : Worker P :=
  { w with
    clients := w.clients.set i (some { c with dirty := true })
    dirty := if c.dirty then w.dirty else i :: w.dirty }

def localAddr (w : Worker P) (s : ℕ) : SocketAddr := w.sockets.getD s ⟨true, ""⟩

/-- The end of `on_datagram`: the datagram goes to the connection in slot `i`. -/
def deliver (w : Worker P) (i s : ℕ) (sender : SocketAddr) (data : Body) : Worker P :=
  match w.client i with
  | none => w
  | some c => w.putDirty i
      { c with conn := P.recv sender (w.localAddr s) data c.conn }.process

def allocSlot (w : Worker P) : ℕ × Worker P :=
  match w.free with
  | i :: rest => (i, { w with free := rest })
  | [] => (w.clients.length, { w with clients := w.clients ++ [none] })

/-- A connection is accepted under the server's id `scid` and the one its client chose. -/
def enrol (w : Worker P) (s : ℕ) (scid odcid : ConnectionId) (q : P.Q) : ℕ × Worker P :=
  let a := w.allocSlot
  (a.1, { a.2 with
    ids := (a.2.ids.insert scid a.1).insert odcid a.1
    clients := a.2.clients.set a.1 (some { conn := q, sock := s, ids := [scid, odcid] }) })

def onDatagram (w : Worker P) (s : ℕ) (sender : SocketAddr) (data : Body) : Worker P :=
  match P.header data with
  | none => w
  | some hdr => match w.ids.lookup hdr.dcid with
    | some i => w.deliver i s sender data
    | none =>
      if hdr.initial = false then w
      else if P.versionIsSupported hdr.version = false then { w with os := P.sendTo s sender w.os }
      else
        let cid := P.fill w.os
        let conn := P.accept cid.1 (w.localAddr s) sender cid.2
        match conn.1 with
        | none => { w with os := conn.2 }
        | some q =>
          let a := { w with os := conn.2 }.enrol s cid.1 hdr.dcid q
          a.2.deliver a.1 s sender data

/-- The ids of the client that leaves slot `i`, as far as they are its own. -/
def dropIds (i : ℕ) (ids : AList (fun _ : ConnectionId => ℕ)) :
    List ConnectionId → AList (fun _ : ConnectionId => ℕ)
  | [] => ids
  | id :: rest => dropIds i (if ids.lookup id = some i then ids.erase id else ids) rest

def remove (w : Worker P) (i : ℕ) : Worker P :=
  match w.client i with
  | none => w
  | some c => { w with
      clients := w.clients.set i none
      ids := dropIds i w.ids c.ids
      free := i :: w.free }

def pushTimer (w : Worker P) (t : Timer) : Worker P :=
  { w with timers := w.timers.orderedInsert (fun a b => a.1 < b.1 ∨ (a.1 = b.1 ∧ a.2 ≤ b.2)) t }

/-- The deadline of the client `c` in slot `i`, and its timer. -/
def schedule (w : Worker P) (i : ℕ) (c : Client P) : Worker P :=
  match P.timeoutInstant c.conn with
  | none => { w with clients := w.clients.set i (some { c with deadline := none }) }
  | some d =>
    if c.scheduled.all (fun s => d < s) then
      { w with clients := w.clients.set i (some { c with deadline := some d, scheduled := some d })
        }.pushTimer (d, i)
    else { w with clients := w.clients.set i (some { c with deadline := some d }) }

def flush (w : Worker P) (i : ℕ) : Worker P :=
  match w.client i with
  | none => w
  | some c =>
    let a := P.sendAnswers c.sock w.os
    let c := { c with dirty := false }.sendLoop a.1
    let w := { w with clients := w.clients.set i (some c), os := a.2 }
    if P.isClosed c.conn then w.remove i else w.schedule i c

/-- A turn of `flush_dirty`. -/
def flushNext (w : Worker P) : Worker P :=
  match w.dirty with
  | [] => w
  | i :: rest => { w with dirty := rest }.flush i

/-- A turn of `fire_timers`, which goes on as long as the first timer is due. -/
def fireNext (w : Worker P) (now : Instant) : Worker P :=
  match w.timers with
  | [] => w
  | (t, i) :: rest =>
    if now < t then w
    else
      let w := { w with timers := rest }
      match w.client i with
      | none => w
      | some c =>
        if c.scheduled ≠ some t then w
        else w.putDirty i { c with
          scheduled := none
          conn := if c.deadline.any (fun d => d ≤ now) then P.onTimeout c.conn else c.conn }

/-- What a worker does with one datagram, one dirty connection or one timer. -/
inductive Step : Worker P → Worker P → Prop
  /-- The source id that is drawn is not among those of the connections there are. -/
  | datagram {w : Worker P} (s : ℕ) (sender : SocketAddr) (data : Body) :
      (P.fill w.os).1 ∉ w.ids → Step w (w.onDatagram s sender data)
  | flush {w : Worker P} : Step w w.flushNext
  | fire {w : Worker P} (now : Instant) : Step w (w.fireNext now)
  | os {w : Worker P} (o : P.Os) : Step w { w with os := o }

def new (sockets : List SocketAddr) (os : P.Os) : Worker P where
  sockets := sockets
  os := os

def Reach (w : Worker P) : Prop :=
  ∃ sockets os, Relation.ReflTransGen Step (new sockets os) w

end Worker
end Http3Bench.Server
