import Http3Bench.Platform
import Mathlib.Logic.Relation

/-!
# What the client relies on of quiche

A connection is closed by what it receives or by its timers, not by the calls that send on it or read
from it, once it has received packets. Request streams are numbered upwards. A request that quiche has
no room for leaves the timers of its connection as they are.
-/

namespace Http3Bench

variable {P : Platform}

/-- A call on a QUIC connection other than `recv` and `on_timeout`. -/
inductive Call (q : P.Q) : P.Q → Prop
  | send : Call q (P.send q).2
  | close (app : Bool) (code : ℕ) (reason : String) : Call q (P.close app code reason q)
  | sendAckEliciting : Call q (P.sendAckEliciting q)
  | withTransport : Call q (P.withTransport q).2
  | sendRequest (headers : List Header) (fin : Bool) (h : P.H3) :
      Call q (P.sendRequest headers fin h q).2.2
  | sendBody (stream : ℕ) (body : Body) (fin : Bool) (h : P.H3) :
      Call q (P.sendBody stream body fin h q).2.2
  | pollAll (h : P.H3) : Call q (P.pollAll h q).2.2

def Calls : P.Q → P.Q → Prop := Relation.ReflTransGen Call

/-- `heard` holds of a connection that has received packets: it goes on to hold, it holds of an
established one, and no `Call` closes a connection of which it holds. -/
structure ClosesOnInput (heard : P.Q → Prop) : Prop where
  established : ∀ q, P.isEstablished q → heard q
  recv : ∀ src dst d q, heard q → heard (P.recv src dst d q)
  onTimeout : ∀ now q, heard q → heard (P.onTimeout now q)
  call : ∀ {q q'}, Call q q' → heard q → heard q'
  stays : ∀ {q q'}, Call q q' → heard q → P.isClosed q = false → P.isClosed q' = false

/-- `next` is the number of the next request stream. -/
structure NumbersStreams (next : P.H3 → ℕ) : Prop where
  sent : ∀ headers fin h q s, (P.sendRequest headers fin h q).1 = .ok s →
    next h ≤ s ∧ s < next (P.sendRequest headers fin h q).2.1
  sendRequest : ∀ headers fin h q, next h ≤ next (P.sendRequest headers fin h q).2.1
  sendBody : ∀ stream body fin h q, next h ≤ next (P.sendBody stream body fin h q).2.1
  pollAll : ∀ h q, next h ≤ next (P.pollAll h q).2.1

/-- A request that finds no room leaves the timeout as it is. -/
def KeepsTimeout (P : Platform) : Prop :=
  ∀ headers fin h q e, (P.sendRequest headers fin h q).1 = .error e → e.blocks →
    P.timeoutInstant (P.sendRequest headers fin h q).2.2 = P.timeoutInstant q

section

variable {q q' q'' : P.Q}

theorem Calls.refl (q : P.Q) : Calls q q := Relation.ReflTransGen.refl

theorem Calls.trans (h : Calls q q') (h' : Calls q' q'') : Calls q q'' :=
  Relation.ReflTransGen.trans h h'

theorem Call.calls (h : Call q q') : Calls q q' := Relation.ReflTransGen.single h

variable {heard : P.Q → Prop} (hp : ClosesOnInput heard)
include hp

theorem ClosesOnInput.calls (h : Calls q q') (hq : heard q) : heard q' := by
  induction h with
  | refl => exact hq
  | tail _ hcall ih => exact hp.call hcall ih

theorem ClosesOnInput.isClosed (h : Calls q q') (hq : heard q) (hc : P.isClosed q = false) :
    P.isClosed q' = false := by
  induction h with
  | refl => exact hc
  | tail hcalls hcall ih => exact hp.stays hcall (hp.calls hcalls hq) ih

end

end Http3Bench
