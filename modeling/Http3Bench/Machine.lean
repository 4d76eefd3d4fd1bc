import Http3Bench.EventLoop
import Mathlib.Algebra.BigOperators.Group.Multiset.Basic

/-!
# The worker as a machine with an agenda

What the functions of the worker have begun and still owe is written down as an agenda of tasks:
an event read off a connection and not yet acted on, a request on its way to a connection, a dial
job between two calls. A `Move` is one indivisible piece of work on the top of the agenda; the
functions of the worker are sequences of moves, and an invariant of the moves is an invariant of
the worker.

A move also names the operations it opens and the ones it closes. `Op` tells them apart: a new
connection, a BenchEcho round trip (as a request or as the redial it waits for), a redial for
BenchMultiplex, the first request of a connection and a BenchMultiplex request.
-/

namespace Http3Bench

inductive Op
  | new (id : ℕ)
  | echo (idx ticket : ℕ)
  | redial (idx : ℕ)
  | get (idx : ℕ)
  | post (idx : ℕ)
  deriving DecidableEq

inductive Task
  /-- `process` is to be run on a slot; an event it read; `send_queued`, which it ends with. -/
  | read (idx : ℕ)
  | event (idx : ℕ) (ev : ConnEvent)
  | drain (idx : ℕ)
  | request (idx : ℕ) (kind : ReqKind) (body : Body)
  /-- `dial_ok` and `dial_failed` are to be run on a slot. -/
  | up (idx : ℕ)
  | down (idx : ℕ) (err : String)
  /-- A new connection is up, a redial for BenchMultiplex is settled, a round trip is over: the
  phase is to be told. -/
  | newUp (job : DialJob)
  | settle (job : DialJob)
  | done (idx : ℕ) (result : Except String ℕ) (start : Instant) (ticket : ℕ)
  /-- A job to be dialed, one inside `try_dial`, one whose attempt failed. -/
  | job (job : DialJob)
  | dialing (job : DialJob)
  | lost (job : DialJob) (err : String)
  | flush (idx : ℕ)
  /-- A ticket drawn for a slot. -/
  | ticket (idx ticket : ℕ)
  /-- `rate_tick`: a request just sent, the rest of a batch, the number sent so far. -/
  | posted (idx : ℕ)
  | batch (job : RateJob) (idx left : ℕ)
  | sent (job : RateJob) (n : ℕ)
  /-- `start` is dialing the `n` broken connections again; it began after `before` refusals. -/
  | prep (job : RateJob) (n before : ℕ)

structure Mach (P : Platform) where
  w : Worker P
  todo : List Task

variable {P : Platform}

def DialJob.op (j : DialJob) : Op :=
  match j.purpose with
  | .new => .new j.id
  | .redialEcho _ n => .echo (j.slot.getD 0) n
  | .redialRate => .redial (j.slot.getD 0)

def ReqKind.op (idx : ℕ) : ReqKind → Op
  | .dial => .get idx
  | .echo _ n => .echo idx n
  | .rate => .post idx

namespace Conn

/-- The requests a connection carries. -/
def requests (c : Conn P) : List ReqKind :=
  c.streams.entries.map (fun e => e.2.kind) ++ c.queued.map Prod.fst

def entryOps (c : Conn P) (idx : ℕ) : Multiset Op := (c.requests.map (ReqKind.op idx) : List Op)

def ops (c : Conn P) (idx : ℕ) : Multiset Op :=
  (c.dial.toList.map DialJob.op : List Op) + c.entryOps idx

/-- The request `try_send` overwrites when quiche hands out a stream id that is in use. -/
def overwrites (headers : List Header) (body : Body) (c : Conn P) : Option Req :=
  match c.h3 with
  | none => none
  | some h => match (P.sendRequest headers body.isEmpty h c.q).1 with
    | .ok stream => c.streams.lookup stream
    | .error _ => none

end Conn

/-- What becomes of a request after `try_send`. -/
def sendTasks (idx : ℕ) (kind : ReqKind) (body : Body) : Except SendError Unit → List Task
  | .ok () => if kind = .rate then [.posted idx] else []
  | .error (.blocked _) => [.request idx kind body]
  | .error (.failed e) => match kind with
    | .dial => [.down idx e]
    | .echo start n => [.done idx (.error e) start n]
    | .rate => []

/-- The operations `try_send` closes: the request `old` it overwrote, or its own when it was
refused. -/
def sendOuts (idx : ℕ) (kind : ReqKind) (old : Option Req) : Except SendError Unit → Multiset Op
  | .ok () => (old.toList.map (fun r => r.kind.op idx) : List Op)
  | .error (.blocked _) => 0
  | .error (.failed _) => match kind with
    | .echo _ _ => 0
    | kind => {kind.op idx}

/-- What an event is handed on as; a `Rate` response and a `Closed` event change the worker. -/
def eventTasks (idx : ℕ) : ConnEvent → List Task
  | .established => [.request idx .dial []]
  | .response .dial (.ok _) _ => [.up idx]
  | .response .dial (.error e) _ => [.down idx e]
  | .response (.echo start n) r _ => [.done idx r start n]
  | _ => []

def eventIns (idx : ℕ) : ConnEvent → Multiset Op
  | .established => {.get idx}
  | _ => 0

def eventOuts (idx : ℕ) : ConnEvent → Multiset Op
  | .response .dial _ _ => {.get idx}
  | _ => 0

def closedTasks (idx : ℕ) (reason : String) : Option (Conn P) → List Task
  | some c => if c.state = .connecting then [.down idx reason] else []
  | none => []

def events (idx : ℕ) (evs : List ConnEvent) : List Task := evs.map (Task.event idx)

/-- The operations of the connection in slot `i`. -/
def Worker.slotOps (w : Worker P) (i : ℕ) : Multiset Op := (w.conn i).elim 0 (fun c => c.ops i)

/-- The points at which a worker drives its benchmark. -/
def Point.driving : Point → Bool
  | .drive _ _ | .echo _ _ => true
  | _ => false

/-- When a phase is over, and with what outcome. -/
inductive Finishes : Phase → Outcome → Prop
  | dial {d : DialPhase} : d.remaining = 0 → d.active = 0 → Finishes (.dial d) (.dial d.lat)
  | echo {e : EchoPhase} : e.exhausted → e.inFlight = 0 →
      Finishes (.echo e) (.echo e.lat e)
  | rate {r : RatePhase} : Finishes (.rate r) (.rate r.counts)

/-- The moves of a worker: agenda and state before, operations opened, operations closed, agenda
and state after. Some are made only where a worker drives its benchmark; `full` says
whether they are among the moves. -/
inductive Moves (full : Bool) : Mach P → Multiset Op → Multiset Op → Mach P → Prop
  | clock {w : Worker P} {st : List Task} (o : P.Os) (t : Duration) :
      Moves full ⟨w, st⟩ 0 0 ⟨w.wait o t, st⟩
  -- requests
  | enqueue {w : Worker P} {st : List Task} {i : ℕ} {kind : ReqKind} {body : Body} {c : Conn P} :
      w.conn i = some c → kind ≠ .rate →
      Moves full ⟨w, .request i kind body :: st⟩ 0 0
        ⟨w.put i { c with queued := c.queued ++ [(kind, body)] }, st⟩
  | send {w : Worker P} {st : List Task} {i : ℕ} {kind : ReqKind} {body : Body} {c : Conn P} :
      w.conn i = some c →
      Moves full ⟨w, .request i kind body :: st⟩ 0
        (sendOuts i kind (c.overwrites (w.headersFor kind) body)
          (c.trySend (w.headersFor kind) kind body).result)
        ⟨w.afterSend i kind c (c.trySend (w.headersFor kind) kind body),
          sendTasks i kind body (c.trySend (w.headersFor kind) kind body).result ++ st⟩
  | giveBack {w : Worker P} {st : List Task} {i : ℕ} {body : Body} :
      Moves full ⟨w, .request i .rate body :: st⟩ 0 {.post i} ⟨w, st⟩
  | dequeue {w : Worker P} {st : List Task} {i : ℕ} {kind : ReqKind} {body : Body} {c : Conn P}
      {rest : List (ReqKind × Body)} :
      w.conn i = some c → c.queued = (kind, body) :: rest → kind ≠ .rate → P.isClosed c.q = false →
      Moves full ⟨w, .drain i :: st⟩ 0 0
        ⟨w.put i { c with queued := rest }, .request i kind body :: .drain i :: st⟩
  | requeue {w : Worker P} {st : List Task} {i : ℕ} {kind : ReqKind} {body : Body} {c : Conn P} :
      w.conn i = some c → kind ≠ .rate →
      Moves full ⟨w, .request i kind body :: st⟩ 0 0
        ⟨w.put i { c with queued := (kind, body) :: c.queued }, st⟩
  | drained {w : Worker P} {st : List Task} {i : ℕ} : Moves full ⟨w, .drain i :: st⟩ 0 0 ⟨w, st⟩
  -- events
  | event {w : Worker P} {st : List Task} {i : ℕ} {ev : ConnEvent} :
      (∀ r cause, ev ≠ .response .rate r cause) → (∀ reason, ev ≠ .closed reason) →
      Moves full ⟨w, .event i ev :: st⟩ (eventIns i ev) (eventOuts i ev) ⟨w, eventTasks i ev ++ st⟩
  | rateEvent {w : Worker P} {st : List Task} {i : ℕ} {r : Except String ℕ} {cause : Cause} :
      Moves full ⟨w, .event i (.response .rate r cause) :: st⟩ 0 {.post i}
        ⟨w.rateResponse i (w.conn i) r cause, st⟩
  | closedReady {w : Worker P} {st : List Task} {i : ℕ} {reason : String} {c : Conn P} :
      w.conn i = some c → c.state = .ready →
      Moves full ⟨w, .event i (.closed reason) :: st⟩ 0 0
        ⟨{ w.put i { c with state := .broken } with ready := w.ready - 1 }, st⟩
  | closedOther {w : Worker P} {st : List Task} {i : ℕ} {reason : String} :
      (∀ c, w.conn i = some c → c.state ≠ .ready) →
      Moves full ⟨w, .event i (.closed reason) :: st⟩ 0 0 ⟨w, closedTasks i reason (w.conn i) ++ st⟩
  -- ends of dials
  | upNone {w : Worker P} {st : List Task} {i : ℕ} {c : Conn P} :
      w.conn i = some c → c.dial = none → Moves full ⟨w, .up i :: st⟩ 0 0 ⟨w, st⟩
  | upNew {w : Worker P} {st : List Task} {i : ℕ} {c : Conn P} {j : DialJob} :
      w.conn i = some c → c.dial = some j → j.purpose = .new →
      Moves full ⟨w, .up i :: st⟩ 0 0 ⟨(w.up i c j).countConnected, .newUp j :: st⟩
  | upEcho {w : Worker P} {st : List Task} {i : ℕ} {c : Conn P} {j : DialJob} {s : Instant} {n : ℕ}
      {e : EchoPhase} {body : Body} :
      w.conn i = some c → c.dial = some j → j.purpose = .redialEcho s n → w.phase = .echo e →
      Moves full ⟨w, .up i :: st⟩ {.echo i n} {j.op} ⟨w.up i c j, .request i (.echo s n) body :: st⟩
  | upEchoLate {w : Worker P} {st : List Task} {i : ℕ} {c : Conn P} {j : DialJob} {s : Instant}
      {n : ℕ} :
      w.conn i = some c → c.dial = some j → j.purpose = .redialEcho s n →
      (∀ e, w.phase ≠ .echo e) → Moves full ⟨w, .up i :: st⟩ 0 {j.op} ⟨w.up i c j, st⟩
  | upRate {w : Worker P} {st : List Task} {i : ℕ} {c : Conn P} {j : DialJob} :
      w.conn i = some c → c.dial = some j → j.purpose = .redialRate →
      Moves full ⟨w, .up i :: st⟩ 0 0 ⟨w.up i c j, .settle j :: st⟩
  | downNone {w : Worker P} {st : List Task} {i : ℕ} {err : String} :
      (∀ c, w.conn i = some c → c.dial = none) → Moves full ⟨w, .down i err :: st⟩ 0 0 ⟨w, st⟩
  | downNew {w : Worker P} {st : List Task} {i : ℕ} {err : String} {c : Conn P} {j : DialJob} :
      w.conn i = some c → c.dial = some j → j.purpose = .new →
      Moves full ⟨w, .down i err :: st⟩ 0 (c.entryOps i)
        ⟨w.drop i c, .lost { j with slot := none } err :: st⟩
  | downRedial {w : Worker P} {st : List Task} {i : ℕ} {err : String} {c : Conn P} {j : DialJob} :
      w.conn i = some c → c.dial = some j → j.purpose ≠ .new →
      Moves full ⟨w, .down i err :: st⟩ 0 (c.entryOps i) ⟨w.put i c.broke, .lost j err :: st⟩
  | retry {w : Worker P} {st : List Task} {j : DialJob} {err : String} :
      j.attempt < w.cfg.dialRetries →
      Moves full ⟨w, .lost j err :: st⟩ 0 0 ⟨w.retry w.clock j, st⟩
  | loseNew {w : Worker P} {st : List Task} {j : DialJob} {err : String} {d : DialPhase} :
      ¬ j.attempt < w.cfg.dialRetries → j.purpose = .new → w.phase = .dial d → d.active ≠ 0 →
      Moves full ⟨w, .lost j err :: st⟩ 0 {j.op} ⟨{ w with phase := .dial (d.failed err) }, st⟩
  | loseNewLate {w : Worker P} {st : List Task} {j : DialJob} {err : String} :
      ¬ j.attempt < w.cfg.dialRetries → j.purpose = .new → (∀ d, w.phase ≠ .dial d) →
      Moves full ⟨w, .lost j err :: st⟩ 0 {j.op} ⟨w, st⟩
  | loseEcho {w : Worker P} {st : List Task} {j : DialJob} {err : String} {s : Instant} {n i : ℕ} :
      ¬ j.attempt < w.cfg.dialRetries → j.purpose = .redialEcho s n → j.slot = some i →
      Moves full ⟨w, .lost j err :: st⟩ 0 0 ⟨w, .done i (.error ("redial: " ++ err)) s n :: st⟩
  | loseEchoNone {w : Worker P} {st : List Task} {j : DialJob} {err : String} {s : Instant} {n : ℕ} :
      ¬ j.attempt < w.cfg.dialRetries → j.purpose = .redialEcho s n → j.slot = none →
      Moves full ⟨w, .lost j err :: st⟩ 0 {j.op} ⟨w, st⟩
  | loseRate {w : Worker P} {st : List Task} {j : DialJob} {err : String} :
      ¬ j.attempt < w.cfg.dialRetries → j.purpose = .redialRate →
      Moves full ⟨w, .lost j err :: st⟩ 0 0 ⟨w, .settle j :: st⟩
  | newUp {w : Worker P} {st : List Task} {j : DialJob} {d : DialPhase} (cost : ℕ) :
      w.phase = .dial d → d.active ≠ 0 →
      Moves full ⟨w, .newUp j :: st⟩ 0 {j.op} ⟨{ w with phase := .dial (d.connected cost) }, st⟩
  | newUpLate {w : Worker P} {st : List Task} {j : DialJob} :
      (∀ d, w.phase ≠ .dial d) → Moves full ⟨w, .newUp j :: st⟩ 0 {j.op} ⟨w, st⟩
  | settle {w : Worker P} {st : List Task} {j : DialJob} {job : RateJob} {r f : ℕ} :
      w.phase = .ratePrep job r f → r ≠ 0 →
      Moves full ⟨w, .settle j :: st⟩ 0 {j.op} ⟨{ w with phase := .ratePrep job (r - 1) f }, st⟩
  | settleLate {w : Worker P} {st : List Task} {j : DialJob} :
      (∀ job r f, w.phase ≠ .ratePrep job r f) → Moves full ⟨w, .settle j :: st⟩ 0 {j.op} ⟨w, st⟩
  | done {w : Worker P} {st : List Task} {i n : ℕ} {r : Except String ℕ} {s : Instant}
      {e : EchoPhase} (cost : ℕ) :
      w.phase = .echo e → e.inFlight ≠ 0 →
      Moves full ⟨w, .done i r s n :: st⟩ 0 {.echo i n}
        ⟨{ w with phase := .echo (e.complete i r cost n) }, st⟩
  | doneLate {w : Worker P} {st : List Task} {i n : ℕ} {r : Except String ℕ} {s : Instant} :
      (∀ e, w.phase ≠ .echo e) → Moves full ⟨w, .done i r s n :: st⟩ 0 {.echo i n} ⟨w, st⟩
  -- dials
  | attempt {w : Worker P} {st : List Task} {j : DialJob} :
      Moves full ⟨w, .job j :: st⟩ 0 0 ⟨w.countAttempt j, .dialing j :: st⟩
  | refused {w : Worker P} {st : List Task} {j : DialJob} {err : String} :
      Moves full ⟨w, .dialing j :: st⟩ 0 0 ⟨{ w with log := .refused :: w.log }, .lost j err :: st⟩
  | registerFailed {w : Worker P} {st : List Task} {j : DialJob} {err : String} (o : P.Os) :
      (∀ i, j.slot = some i → i < w.slots.length) →
      Moves full ⟨w, .dialing j :: st⟩ 0 (j.slot.elim 0 w.slotOps)
        ⟨{ (w.takeSlot j.slot).2.wait o 0 with
            log := .registerFailed :: ((w.takeSlot j.slot).2.wait o 0).log }, .lost j err :: st⟩
  | seated {w : Worker P} {st : List Task} {j : DialJob} {d : Dialed P} (o₁ o₂ : P.Os)
      (t : Duration) :
      (∀ i, j.slot = some i → i < w.slots.length) →
      (w.takeSlot j.slot).1 < (w.takeSlot j.slot).2.slots.length →
      Moves full ⟨w, .dialing j :: st⟩ {({ j with slot := some (w.takeSlot j.slot).1 } : DialJob).op}
        (j.op ::ₘ w.slotOps (w.takeSlot j.slot).1)
        ⟨(((w.takeSlot j.slot).2.wait o₁ 0).wait o₂ t).install (w.takeSlot j.slot).1 d j
            (((w.takeSlot j.slot).2.wait o₁ 0).clock + t),
          .flush (w.takeSlot j.slot).1 :: st⟩
  -- sockets and timers
  | flushPop {w : Worker P} {i : ℕ} {rest : List ℕ} :
      w.dirty = i :: rest → Moves full ⟨w, []⟩ 0 0 ⟨{ w with dirty := rest }, [.flush i]⟩
  | clean {w : Worker P} {i : ℕ} {rest : List ℕ} :
      w.dirty = i :: rest → (∀ c, w.conn i = some c → c.dirty = false) →
      Moves full ⟨w, []⟩ 0 0 ⟨{ w with dirty := rest }, []⟩
  | closing {w : Worker P} {i : ℕ} {c : Conn P} :
      w.conn i = some c →
      Moves full ⟨w, []⟩ 0 0 ⟨w.put i { c with q := P.close true h3NoError "" c.q }, [.flush i]⟩
  | flushNone {w : Worker P} {st : List Task} {i : ℕ} :
      w.conn i = none → Moves full ⟨w, .flush i :: st⟩ 0 0 ⟨w, st⟩
  | flushed {w : Worker P} {st : List Task} {i : ℕ} {c : Conn P} (r : Conn P × Bool × ℕ)
      (as : List SockSend) (o : P.Os) (t : Duration) :
      w.conn i = some c → r = ({ c with dirty := false } : Conn P).sendLoop false as →
      Moves full ⟨w, .flush i :: st⟩ 0 0
        ⟨(w.wait o t).flushed i r (w.clock + t),
          (if r.1.socketError.isSome then [.read i] else []) ++ st⟩
  | readNone {w : Worker P} {st : List Task} {i : ℕ} :
      w.conn i = none → Moves full ⟨w, .read i :: st⟩ 0 0 ⟨w, st⟩
  | read {w : Worker P} {st : List Task} {i : ℕ} {c : Conn P} :
      w.conn i = some c →
      Moves full ⟨w, .read i :: st⟩ 0 0
        ⟨w.putDirty i (c.processConn w.cfg.check).1,
          events i (c.processConn w.cfg.check).2 ++ .drain i :: st⟩
  | received {w : Worker P} {i : ℕ} {c : Conn P} {ds : List Body × Option String} (o : P.Os)
      (t : Duration) :
      w.conn i = some c →
      Moves full ⟨w, []⟩ 0 0 ⟨(w.wait o t).put i (c.received ds (w.clock + t)), [.read i]⟩
  | timerStale {w : Worker P} {t : Instant} {i : ℕ} {rest : List Timer} :
      w.timers = (t, i) :: rest → (∀ c, w.conn i = some c → c.scheduled ≠ some t) →
      Moves full ⟨w, []⟩ 0 0 ⟨{ w with timers := rest }, []⟩
  | timerRearmed {w : Worker P} {t : Instant} {i : ℕ} {rest : List Timer} {c : Conn P} :
      w.timers = (t, i) :: rest → w.conn i = some c → c.scheduled = some t →
      Moves full ⟨w, []⟩ 0 0 ⟨(w.popTimer rest i c).schedule i, []⟩
  | timerDown {w : Worker P} {t : Instant} {i : ℕ} {rest : List Timer} {c : Conn P} {err : String} :
      w.timers = (t, i) :: rest → w.conn i = some c → c.scheduled = some t →
      c.state = .connecting →
      Moves full ⟨w, []⟩ 0 0 ⟨w.popTimer rest i c, [.down i err]⟩
  | timerFired {w : Worker P} {t now : Instant} {i : ℕ} {rest : List Timer} {c : Conn P} :
      w.timers = (t, i) :: rest → w.conn i = some c → c.scheduled = some t →
      Moves full ⟨w, []⟩ 0 0 ⟨(w.popTimer rest i c).putDirty i (c.timedOut now), [.read i]⟩
  | retryDue {w : Worker P} {t : Instant} {j : DialJob} {rest : List (Instant × DialJob)} :
      w.retries = (t, j) :: rest →
      Moves full ⟨w, []⟩ 0 0 ⟨{ w with retries := rest }, [.job j]⟩
  | keepalive {w : Worker P} {i : ℕ} {c : Conn P} :
      w.conn i = some c →
      Moves full ⟨w, []⟩ 0 0 ⟨w.putDirty i { c with q := P.sendAckEliciting c.q }, []⟩
  | keepaliveNext {w : Worker P} (t : Instant) :
      Moves full ⟨w, []⟩ 0 0 ⟨{ w with nextKeepalive := t }, []⟩
  -- commands and benchmarks
  | startStop {w : Worker P} {rest : List Command} :
      w.rx = .stop :: rest → Moves full ⟨w, []⟩ 0 0 ⟨{ w with rx := rest }, []⟩
  | startDial {w : Worker P} {rest : List Command} {count conc : ℕ} :
      w.rx = .dial count conc :: rest →
      Moves full ⟨w, []⟩ 0 0
        ⟨{ w with rx := rest, phase := .dial { remaining := count, concurrency := conc } }, []⟩
  | startEcho {w : Worker P} {rest : List Command} {job : EchoJob} {conc : ℕ} :
      w.rx = .echo job conc :: rest →
      Moves full ⟨w, []⟩ 0 0 ⟨{ w with rx := rest }.startEcho job conc, []⟩
  | startRate {w : Worker P} {rest : List Command} {job : RateJob} (o : P.Os) (t : Duration) :
      w.rx = .rate job :: rest →
      Moves full ⟨w, []⟩ (w.broken.map Op.redial : List Op) 0
        ⟨{ ({ w with rx := rest }.setPostHeaders job.payload.length).wait o t with
            serial := w.serial + (w.broken.map some).length },
          (mkJobs (w.clock + t) .redialRate w.serial (w.broken.map some)).map Task.job ++
            [.prep job w.broken.length w.refusals]⟩
  | prepared {w : Worker P} {job : RateJob} {n before : ℕ} :
      Moves full ⟨w, [.prep job n before]⟩ 0 0
        ⟨{ w with phase := .ratePrep job n (w.refusals - before) }, []⟩
  | finish {w : Worker P} {o : Outcome} :
      Finishes w.phase o → full = true →
      Moves full ⟨w, []⟩ 0 0 ⟨{ w with phase := .idle, sent := w.sent ++ [o] }, []⟩
  | startDials {w : Worker P} {d : DialPhase} (now : Instant) (starts : ℕ) :
      w.phase = .dial d → starts = min d.remaining (d.concurrency - d.active) →
      Moves full ⟨w, []⟩ ((List.range starts).map (fun k => Op.new (w.serial + k)) : List Op) 0
        ⟨{ w with phase := .dial (d.begin starts), serial := w.serial + starts },
          (mkJobs now .new w.serial (List.replicate starts none)).map Task.job⟩
  | echoWait {w : Worker P} {e : EchoPhase} (t : Option Instant) :
      w.phase = .echo e → Moves full ⟨w, []⟩ 0 0 ⟨{ w with phase := .echo { e with waitUntil := t } }, []⟩
  | overdraw {w : Worker P} {e : EchoPhase} :
      w.phase = .echo e → e.job.times ≤ w.shared.issued →
      Moves full ⟨w, []⟩ 0 0 ⟨{ w.fetchIssued with phase := .echo (e.overdraw w.shared.issued) }, []⟩
  | draw {w : Worker P} {e : EchoPhase} {i : ℕ} {rest : List ℕ} :
      w.phase = .echo e → e.exhausted = false → e.inFlight < e.slots → e.idle = i :: rest →
      w.shared.issued < e.job.times →
      Moves full ⟨w, []⟩ {.echo i w.shared.issued} 0
        ⟨{ w.fetchIssued with phase := .echo (e.draw rest w.shared.issued) },
          [.ticket i w.shared.issued]⟩
  | ticketRedial {w : Worker P} {i n : ℕ} {c : Conn P} :
      w.conn i = some c → c.state = .broken →
      Moves full ⟨w, [.ticket i n]⟩ 0 0
        ⟨{ w with serial := w.serial + 1 },
          [.job ⟨w.clock, 1, .redialEcho w.clock n, some i, w.serial⟩]⟩
  | ticketSend {w : Worker P} {i n : ℕ} {c : Conn P} (body : Body) :
      w.conn i = some c → c.state ≠ .broken →
      Moves full ⟨w, [.ticket i n]⟩ 0 0 ⟨w, [.request i (.echo w.clock n) body]⟩
  | rateStart {w : Worker P} {job : RateJob} {f : ℕ} (now : Instant) :
      w.phase = .ratePrep job 0 f → full = true → Moves full ⟨w, []⟩ 0 0 ⟨w.startRate job now, []⟩
  | rateTimes {w : Worker P} {r : RatePhase} (next : Instant) (grace : Option Instant) :
      w.phase = .rate r → full = true →
      Moves full ⟨w, []⟩ 0 0 ⟨{ w with phase := .rate { r with nextTick := next, graceUntil := grace } }, []⟩
  | tick {w : Worker P} {r : RatePhase} :
      w.phase = .rate r → full = true → Moves full ⟨w, []⟩ 0 0 ⟨w, [.sent r.job 0]⟩
  | batch {w : Worker P} {job : RateJob} {i n : ℕ} {c : Conn P} :
      w.conn i = some c → skips job c = false →
      Moves full ⟨w, [.sent job n]⟩ 0 0 ⟨w, [.batch job i job.batch, .sent job n]⟩
  | post {w : Worker P} {st : List Task} {job : RateJob} {i k : ℕ} :
      Moves full ⟨w, .batch job i (k + 1) :: st⟩ {.post i} 0
        ⟨w, .request i .rate job.payload :: .batch job i k :: st⟩
  | posted {w : Worker P} {job : RateJob} {i k n : ℕ} {c : Conn P} :
      w.conn i = some c →
      Moves full ⟨w, [.posted i, .batch job i k, .sent job n]⟩ 0 0
        ⟨w.put i { c with inFlight := c.inFlight + 1 }, [.batch job i k, .sent job (n + 1)]⟩
  | batchEnd {w : Worker P} {job : RateJob} {i k n : ℕ} :
      Moves full ⟨w, [.batch job i k, .sent job n]⟩ 0 0 ⟨w, [.sent job n]⟩
  | tickEnd {w : Worker P} {job : RateJob} {n : ℕ} :
      Moves full ⟨w, [.sent job n]⟩ 0 0 ⟨w.addSent n, []⟩

abbrev Move : Mach P → Multiset Op → Multiset Op → Mach P → Prop := Moves true

/-- Where a function of the worker would panic on an empty slot or on a counter at zero. -/
inductive Stuck : Mach P → Panic → Prop
  | request {w : Worker P} {st : List Task} {i : ℕ} {kind : ReqKind} {body : Body} :
      w.conn i = none → Stuck ⟨w, .request i kind body :: st⟩ .unwrap
  | up {w : Worker P} {st : List Task} {i : ℕ} : w.conn i = none → Stuck ⟨w, .up i :: st⟩ .unwrap
  | ticket {w : Worker P} {st : List Task} {i n : ℕ} :
      w.conn i = none → Stuck ⟨w, .ticket i n :: st⟩ .unwrap
  | posted {w : Worker P} {st : List Task} {i : ℕ} :
      w.conn i = none → Stuck ⟨w, .posted i :: st⟩ .unwrap
  | newUp {w : Worker P} {st : List Task} {j : DialJob} {d : DialPhase} :
      w.phase = .dial d → d.active = 0 → Stuck ⟨w, .newUp j :: st⟩ .underflow
  | loseNew {w : Worker P} {st : List Task} {j : DialJob} {err : String} {d : DialPhase} :
      j.purpose = .new → w.phase = .dial d → d.active = 0 →
      Stuck ⟨w, .lost j err :: st⟩ .underflow
  | settle {w : Worker P} {st : List Task} {j : DialJob} {job : RateJob} {f : ℕ} :
      w.phase = .ratePrep job 0 f → Stuck ⟨w, .settle j :: st⟩ .underflow
  | done {w : Worker P} {st : List Task} {i n : ℕ} {r : Except String ℕ} {s : Instant}
      {e : EchoPhase} :
      w.phase = .echo e → e.inFlight = 0 → Stuck ⟨w, .done i r s n :: st⟩ .underflow

end Http3Bench
