import Mathlib.Tactic
import Mathlib.Data.List.AList

/-!
# What the client runs on

The kernel, the clock, quiche and its HTTP/3 layer are not part of the repository. `Platform`
collects the calls the client makes to them, each a function of the callee's own state, so that a
run quantified over all platforms and all their states meets every answer these calls can give.

Three loops of the client only drain a source and are one call here: the datagrams waiting on a
socket with how `recv` ended the loop, the answers the kernel gives to successive `send` calls of
one flush (`wouldBlock` once they run out), and the events of one `h3.poll` loop with the reads of
`recv_body` at each `Data` event.
-/

namespace Http3Bench

/-- Nanoseconds since an arbitrary start. -/
abbrev Instant := ℕ
abbrev Duration := ℕ
abbrev Body := List UInt8
abbrev Header := Body × Body

def second : Duration := 1000000000

structure SocketAddr where
  ipv4 : Bool
  text : String
  deriving DecidableEq

/-- A UDP socket, by its descriptor. -/
abbrev Sock := ℕ

/-- `quiche::h3::Error`, as far as the client tells its values apart. -/
inductive H3Error
  | done
  | streamBlocked
  | streamLimit
  | other (text : String)
  deriving DecidableEq

def H3Error.text : H3Error → String
  | .done => "Done"
  | .streamBlocked => "StreamBlocked"
  | .streamLimit => "TransportError(StreamLimit)"
  | .other t => t

/-- The two errors of `send_request` after which the request can be sent later. -/
def H3Error.blocks : H3Error → Bool
  | .streamBlocked | .streamLimit => true
  | _ => false

inductive H3Event
  | headers (list : List Header)
  | data (reads : List Body)
  | finished
  | reset (code : ℕ)
  | goAway
  | priorityUpdate
  deriving DecidableEq

/-- `quiche::Connection::send`. -/
inductive QuicheSend
  | packet
  | done
  | failed (e : String)
  deriving DecidableEq

/-- The kernel's answer to `send` on a connected socket. -/
inductive SockSend
  | sent
  | wouldBlock
  | failed (e : String)
  deriving DecidableEq

/-- What an event of `mio` names: the waker, or the socket of a slot. -/
inductive Token
  | waker
  | slot (idx : ℕ)
  deriving DecidableEq

structure Platform where
  Os : Type
  Q : Type
  H3 : Type
  /-- Time that has passed since the clock was last read. -/
  elapsed : Os → Duration × Os
  poll : Option Instant → Os → List Token × Os
  bind : String → Os → Except String Sock × Os
  connect : Sock → SocketAddr → Os → Except String Unit × Os
  localAddr : Sock → Os → Except String SocketAddr × Os
  register : Sock → ℕ → Os → Except String Unit × Os
  deregister : Sock → Os → Os
  recvAll : Sock → Os → (List Body × Option String) × Os
  sendAnswers : Sock → Os → List SockSend × Os
  /-- `Limiter::take`: how long to wait, or `none` when the tokens were there. -/
  limiterTake : ℕ → Os → Option Duration × Os
  quicheConnect : Option String → SocketAddr → SocketAddr → Os → Except String Q × Os
  isClosed : Q → Bool
  isEstablished : Q → Bool
  isTimedOut : Q → Bool
  /-- Error code and reason, the reason as text. -/
  peerError : Q → Option (ℕ × String)
  localError : Q → Option (ℕ × String)
  timeoutInstant : Q → Option Instant
  peerStreamsLeftBidi : Q → ℕ
  recv : SocketAddr → SocketAddr → Body → Q → Q
  send : Q → QuicheSend × Q
  onTimeout : Instant → Q → Q
  close : Bool → ℕ → String → Q → Q
  sendAckEliciting : Q → Q
  withTransport : Q → Except String H3 × Q
  sendRequest : List Header → Bool → H3 → Q → Except H3Error ℕ × H3 × Q
  sendBody : ℕ → Body → Bool → H3 → Q → Except H3Error ℕ × H3 × Q
  pollAll : H3 → Q → (List (ℕ × H3Event) × Option H3Error) × H3 × Q
  /-- The order in which a hash map is drained. -/
  drainOrder : {α : Type} → List α → List α
  drainOrder_perm : ∀ {α : Type} (l : List α), (drainOrder l).Perm l

end Http3Bench
