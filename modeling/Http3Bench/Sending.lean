import Http3Bench.Connection

/-!
# Sending on a connection

`Conn.trySend` is `try_send` below the worker: it says how the connection is left, what the caller
is answered, whether `mark_dirty` was called, and whether quiche refused the request with an error
other than having no room for it. `Conn.sendLoop` is the loop of `flush`.
-/

namespace Http3Bench

variable {P : Platform}

structure Sent (P : Platform) where
  conn : Conn P
  result : Except SendError Unit
  dirty : Bool
  hard : Bool

namespace Conn

/-- The connection is in no state to carry requests; closing it sends it down the path every
broken connection takes. -/
def refuse (c : Conn P) (e : String) : Sent P where
  conn := { c with q := P.close true 0x102 "" c.q }
  result := .error (.failed e)
  dirty := true
  hard := true

def park (c : Conn P) (stream : ℕ) (body : Body) (off : ℕ) : Conn P :=
  if off < body.length then { c with pending := c.pending ++ [⟨stream, body, off⟩] } else c

def record (c : Conn P) (stream : ℕ) (kind : ReqKind) (body : Body) : Sent P where
  conn := { c with
    streams := c.streams.insert stream { kind, expect := if kind = .dial then [] else body } }
  result := .ok ()
  dirty := true
  hard := false

def trySend (headers : List Header) (kind : ReqKind) (body : Body) (c : Conn P) : Sent P :=
  match c.h3 with
  | none => ⟨c, .error (.failed "no HTTP/3 connection"), false, false⟩
  | some h =>
    let a := P.sendRequest headers body.isEmpty h c.q
    let c := { c with h3 := some a.2.1, q := a.2.2 }
    match a.1 with
    | .error e =>
      if e.blocks then ⟨c, .error (.blocked ("send request: " ++ e.text)), false, false⟩
      else c.refuse ("send request: " ++ e.text)
    | .ok stream =>
      if body = [] then c.record stream kind body
      else
        let b := P.sendBody stream body true a.2.1 a.2.2
        let c := { c with h3 := some b.2.1, q := b.2.2 }
        match b.1 with
        | .ok n => (c.park stream body n).record stream kind body
        | .error .done => (c.park stream body 0).record stream kind body
        | .error e => c.refuse ("send body: " ++ e.text)

/-- How the connection is left, whether a datagram went out, and how many were dropped. -/
def sendLoop (c : Conn P) (sent : Bool) (answers : List SockSend) : Conn P × Bool × ℕ :=
  match P.send c.q with
  | (.packet, q) =>
    match answers with
    | .sent :: rest => sendLoop { c with q := q } true rest
    | .failed e :: _ => ({ c with q := q, socketError := some ("send: " ++ e) }, sent, 0)
    | _ => ({ c with q := q }, sent, 1)
  | (.done, q) => ({ c with q := q }, sent, 0)
  | (.failed e, q) =>
    ({ c with
        q := P.close false 0x1 "send failed" q
        socketError := some ("quiche send: " ++ e) }, sent, 0)
termination_by structural answers

end Conn
end Http3Bench
