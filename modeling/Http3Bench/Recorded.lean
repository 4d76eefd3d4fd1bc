import Http3Bench.Handover

/-!
# What is recorded changes nothing

Without the calls that are written down, the functions of a connection and of a worker do on
`Platform.recorded` what they do on the platform itself.
-/

namespace Http3Bench

variable {P : Platform}

namespace Conn

/-- The connection without the record. -/
def plain (c : Conn P.recorded) : Conn P where
  sock := c.sock
  q := c.q
  h3 := c.h3.map Prod.fst
  localAddr := c.localAddr
  peer := c.peer
  state := c.state
  dial := c.dial
  attemptDeadline := c.attemptDeadline
  streams := c.streams
  pending := c.pending
  queued := c.queued
  deadline := c.deadline
  scheduled := c.scheduled
  lastActive := c.lastActive
  dirty := c.dirty
  inFlight := c.inFlight
  goaway := c.goaway
  socketError := c.socketError
  uid := c.uid

@[simp] theorem plain_q (c : Conn P.recorded) : c.plain.q = c.q := rfl

@[simp] theorem plain_state (c : Conn P.recorded) : c.plain.state = c.state := rfl

@[simp] theorem plain_dial (c : Conn P.recorded) : c.plain.dial = c.dial := rfl

@[simp] theorem plain_queued (c : Conn P.recorded) : c.plain.queued = c.queued := rfl

@[simp] theorem plain_streams (c : Conn P.recorded) : c.plain.streams = c.streams := rfl

@[simp] theorem plain_scheduled (c : Conn P.recorded) : c.plain.scheduled = c.scheduled := rfl

@[simp] theorem plain_deadline (c : Conn P.recorded) : c.plain.deadline = c.deadline := rfl

@[simp] theorem plain_attemptDeadline (c : Conn P.recorded) :
    c.plain.attemptDeadline = c.attemptDeadline := rfl

@[simp] theorem plain_lastActive (c : Conn P.recorded) : c.plain.lastActive = c.lastActive := rfl

@[simp] theorem plain_socketError (c : Conn P.recorded) : c.plain.socketError = c.socketError := rfl

/-- A connection with what has come of it. -/
def plainOf {α : Type} (r : Conn P.recorded × α) : Conn P × α := (r.1.plain, r.2)

theorem plain_updateReq (c : Conn P.recorded) (sid : ℕ) (f : Req → Req) :
    (c.updateReq sid f).plain = c.plain.updateReq sid f := by
  unfold updateReq
  dsimp only [plain]
  cases c.streams.lookup sid <;> rfl

theorem plain_onEvent (check : Bool) (c : Conn P.recorded) (ev : ℕ × H3Event) :
    plainOf (c.onEvent check ev) = c.plain.onEvent check ev := by
  obtain ⟨sid, ev⟩ := ev
  cases ev with
  | headers list => exact congrArg (fun c => (c, [])) (plain_updateReq c sid _)
  | data reads => exact congrArg (fun c => (c, [])) (plain_updateReq c sid _)
  | finished | reset code =>
    unfold onEvent
    dsimp only [plain]
    cases c.streams.lookup sid <;> rfl
  | _ => rfl

theorem plain_onEvents (check : Bool) (c : Conn P.recorded) (evs : List (ℕ × H3Event)) :
    plainOf (c.onEvents check evs) = c.plain.onEvents check evs := by
  induction evs generalizing c with
  | nil => rfl
  | cons ev rest ih =>
    unfold onEvents
    rw [← plain_onEvent]
    dsimp only [plainOf]
    rw [← ih]
    rfl

/-- What `resume` leaves behind, without the record. -/
def plainAll (r : P.recorded.H3 × P.recorded.Q × List PendingBody) : P.H3 × P.Q × List PendingBody :=
  (r.1.1, r.2)

/-- What one body leaves in the list, before the rest of it. -/
def kept (p : PendingBody) (res : Except H3Error ℕ) (ps : List PendingBody) : List PendingBody :=
  if res = .error .done then p :: ps
  else if res.toOption.any (fun n => p.off + n < p.body.length) then
    { p with off := p.off + res.toOption.getD 0 } :: ps
  else ps

theorem resume_eq_kept (h : P.H3) (q : P.Q) (p : PendingBody) (rest : List PendingBody) :
    resume h q (p :: rest) =
      let a := P.sendBody p.stream (p.body.drop p.off) true h q
      let t := resume a.2.1 a.2.2 rest
      (t.1, t.2.1, kept p a.1 t.2.2) := by
  rw [resume]
  dsimp only
  cases (P.sendBody p.stream (p.body.drop p.off) true h q).1 with
  | ok n => by_cases hlt : p.off + n < p.body.length <;> simp [kept, Except.toOption, hlt]
  | error e => cases e <;> simp [kept, Except.toOption]

theorem plain_resume (h : P.recorded.H3) (q : P.recorded.Q) (ps : List PendingBody) :
    plainAll (resume h q ps) = resume h.1 q ps := by
  induction ps generalizing h q with
  | nil => rfl
  | cons p rest ih =>
    have hkept : ∀ (res : Except H3Error ℕ) (t : P.recorded.H3 × P.recorded.Q × List PendingBody),
        plainAll (t.1, t.2.1, kept p res t.2.2) =
          (fun t : P.H3 × P.Q × List PendingBody => (t.1, t.2.1, kept p res t.2.2)) (plainAll t) :=
      fun _ _ => rfl
    rw [resume_eq_kept]
    refine (hkept _ _).trans ?_
    rw [ih]
    exact (resume_eq_kept h.1 q p rest).symm

theorem plain_polled (check : Bool) (h : P.recorded.H3) (c : Conn P.recorded) :
    plainOf (c.polled check h) = c.plain.polled check h.1 :=
  plain_onEvents check _ _

theorem plain_resumed (check : Bool) (h : P.recorded.H3) (c : Conn P.recorded) :
    (c.resumed check h).plain = c.plain.resumed check h.1 := by
  have hpolled := congrArg Prod.fst (plain_polled check h c)
  unfold resumed
  rw [← hpolled]
  exact congrArg (fun s : P.H3 × P.Q × List PendingBody => { (plainOf (c.polled check h)).1 with
    h3 := some s.1
    q := s.2.1
    pending := s.2.2 }) (plain_resume (P.recorded.pollAll h c.q).2.1 (polledQ (P := P.recorded) h c) _)

theorem plain_readH3 (check : Bool) (h : P.recorded.H3) (c : Conn P.recorded) :
    plainOf (c.readH3 check h) = c.plain.readH3 check h.1 := by
  unfold readH3
  rw [← plain_resumed, ← plain_polled, apply_ite plainOf]
  rfl

theorem plain_setupH3 (c : Conn P.recorded) :
    (c.setupH3.map plainOf).mapError plainOf = c.plain.setupH3 := by
  have hnone : c.plain.h3.isNone = c.h3.isNone := Option.isNone_map ..
  have hwith : (c.plain.h3.isNone ∧ P.isEstablished c.plain.q) =
      (c.h3.isNone ∧ P.recorded.isEstablished c.q) := by
    rw [hnone]
    rfl
  have htransport : P.recorded.withTransport c.q =
      ((P.withTransport c.q).1.map (fun h => (h, [])), (P.withTransport c.q).2) := rfl
  unfold setupH3
  by_cases h : c.h3.isNone ∧ P.recorded.isEstablished c.q
  · rw [if_pos h, if_pos (hwith.mpr h), htransport]
    rw [Conn.plain_q]
    rcases P.withTransport c.q with ⟨res, q⟩
    cases res <;> rfl
  · rw [if_neg h, if_neg (mt hwith.mp h)]
    rfl

theorem plain_processConn (check : Bool) (c : Conn P.recorded) :
    plainOf (c.processConn check) = c.plain.processConn check := by
  unfold processConn
  have hclosed : P.recorded.isClosed c.q = P.isClosed c.plain.q := rfl
  rw [Conn.plain_socketError, hclosed]
  cases c.socketError with
  | some err => rfl
  | none =>
    dsimp only
    by_cases hc : P.isClosed c.plain.q
    · rw [if_pos hc, if_pos hc]
      rfl
    · rw [if_neg hc, if_neg hc, ← plain_setupH3]
      cases c.setupH3 with
      | error r => rfl
      | ok r =>
        dsimp only [Except.map, Except.mapError]
        rcases Option.eq_none_or_eq_some r.1.h3 with hh | ⟨h, hh⟩
        · have hplain : (plainOf r).1.h3 = none := congrArg (Option.map Prod.fst) hh
          simp only [hh, hplain]
        · have hplain : (plainOf r).1.h3 = some h.1 := congrArg (Option.map Prod.fst) hh
          simp only [hh, hplain]
          exact congrArg (fun s : Conn P × List ConnEvent => (s.1, r.2 ++ s.2))
            (plain_readH3 check h r.1)

theorem plain_sendLoop (c : Conn P.recorded) (sent : Bool) (answers : List SockSend) :
    plainOf (c.sendLoop sent answers) = c.plain.sendLoop sent answers := by
  induction answers generalizing c sent with
  | nil =>
    unfold sendLoop
    have hsend : P.recorded.send c.q = P.send c.plain.q := rfl
    rw [hsend]
    rcases P.send c.plain.q with ⟨out, q⟩
    cases out <;> rfl
  | cons a rest ih =>
    unfold sendLoop
    have hsend : P.recorded.send c.q = P.send c.plain.q := rfl
    rw [hsend]
    rcases P.send c.plain.q with ⟨out, q⟩
    cases out with
    | packet =>
      cases a with
      | sent => exact ih _ _
      | _ => rfl
    | _ => rfl

end Conn

def Sent.plain (s : Sent P.recorded) : Sent P := ⟨s.conn.plain, s.result, s.dirty, s.hard⟩

theorem Conn.plain_park (c : Conn P.recorded) (stream : ℕ) (body : Body) (off : ℕ) :
    (c.park stream body off).plain = c.plain.park stream body off := by
  unfold park
  exact apply_ite plain ..

theorem Conn.plain_trySend (c : Conn P.recorded) (headers : List Header) (kind : ReqKind)
    (body : Body) : (c.trySend headers kind body).plain = c.plain.trySend headers kind body := by
  unfold trySend
  rcases Option.eq_none_or_eq_some c.h3 with hh | ⟨h, hh⟩
  · have hplain : c.plain.h3 = none := congrArg (Option.map Prod.fst) hh
    simp only [hh, hplain]
    rfl
  · have hplain : c.plain.h3 = some h.1 := congrArg (Option.map Prod.fst) hh
    simp only [hh, hplain]
    have hrequest : P.recorded.sendRequest headers body.isEmpty h c.q =
        ((P.sendRequest headers body.isEmpty h.1 c.plain.q).1,
          ((P.sendRequest headers body.isEmpty h.1 c.plain.q).2.1, h.2 ++
            [.request headers body.isEmpty (P.sendRequest headers body.isEmpty h.1 c.plain.q).1]),
          (P.sendRequest headers body.isEmpty h.1 c.plain.q).2.2) := rfl
    rw [hrequest]
    rcases P.sendRequest headers body.isEmpty h.1 c.plain.q with ⟨res, h', q'⟩
    cases res with
    | error e => exact apply_ite Sent.plain ..
    | ok stream =>
      dsimp only
      split
      · rfl
      · have hbody : ∀ calls, P.recorded.sendBody stream body true (h', calls) q' =
            ((P.sendBody stream body true h' q').1,
              ((P.sendBody stream body true h' q').2.1,
                calls ++ [.body stream body true (P.sendBody stream body true h' q').1]),
              (P.sendBody stream body true h' q').2.2) := fun _ => rfl
        rw [hbody]
        rcases P.sendBody stream body true h' q' with ⟨res, h'', q''⟩
        cases res with
        | ok n => exact congrArg (fun c => record c stream kind body) (plain_park _ stream body n)
        | error e =>
          cases e with
          | done => exact congrArg (fun c => record c stream kind body) (plain_park _ stream body 0)
          | _ => rfl

namespace Worker

/-- The worker without the record. -/
def plain (w : Worker P.recorded) : Worker P where
  cfg := w.cfg
  rx := w.rx
  given := w.given
  sent := w.sent
  shared := w.shared
  ready := w.ready
  getHeaders := w.getHeaders
  postHeaders := w.postHeaders
  postLen := w.postLen
  slots := w.slots.map (Option.map Conn.plain)
  free := w.free
  timers := w.timers
  retries := w.retries
  dirty := w.dirty
  phase := w.phase
  nextKeepalive := w.nextKeepalive
  keepalive := w.keepalive
  dropped := w.dropped
  os := w.os
  clock := w.clock
  serial := w.serial
  log := w.log

@[simp] theorem plain_cfg (w : Worker P.recorded) : w.plain.cfg = w.cfg := rfl

@[simp] theorem plain_rx (w : Worker P.recorded) : w.plain.rx = w.rx := rfl

@[simp] theorem plain_shared (w : Worker P.recorded) : w.plain.shared = w.shared := rfl

@[simp] theorem plain_phase (w : Worker P.recorded) : w.plain.phase = w.phase := rfl

@[simp] theorem plain_retries (w : Worker P.recorded) : w.plain.retries = w.retries := rfl

@[simp] theorem plain_timers (w : Worker P.recorded) : w.plain.timers = w.timers := rfl

@[simp] theorem plain_dirty (w : Worker P.recorded) : w.plain.dirty = w.dirty := rfl

@[simp] theorem plain_free (w : Worker P.recorded) : w.plain.free = w.free := rfl

@[simp] theorem plain_keepalive (w : Worker P.recorded) : w.plain.keepalive = w.keepalive := rfl

@[simp] theorem plain_nextKeepalive (w : Worker P.recorded) :
    w.plain.nextKeepalive = w.nextKeepalive := rfl

theorem plain_conn (w : Worker P.recorded) (i : ℕ) : w.plain.conn i = (w.conn i).map Conn.plain := by
  unfold conn plain
  rw [List.getElem?_map]
  cases w.slots[i]? <;> rfl

theorem plain_put (w : Worker P.recorded) (i : ℕ) (c : Conn P.recorded) :
    (w.put i c).plain = w.plain.put i c.plain := by
  unfold put plain
  simp only [List.map_set]
  rfl

theorem plain_putDirty (w : Worker P.recorded) (i : ℕ) (c : Conn P.recorded) :
    (w.putDirty i c).plain = w.plain.putDirty i c.plain := by
  unfold putDirty plain
  simp only [List.map_set]
  rfl

theorem plain_schedule (w : Worker P.recorded) (i : ℕ) :
    (w.schedule i).plain = w.plain.schedule i := by
  unfold schedule
  rw [plain_conn]
  cases w.conn i with
  | none => rfl
  | some c =>
    have htimeout : c.timeout = c.plain.timeout := rfl
    simp only [Option.map_some]
    rw [htimeout]
    cases c.plain.timeout with
    | none => exact plain_put ..
    | some d =>
      dsimp only
      rw [apply_ite plain, plain_put]
      have hpush : ∀ (w : Worker P.recorded) (t : Timer), (w.pushTimer t).plain = w.plain.pushTimer t :=
        fun _ _ => rfl
      rw [hpush, plain_put]
      rfl

theorem plain_drop (w : Worker P.recorded) (i : ℕ) (c : Conn P.recorded) :
    (w.drop i c).plain = w.plain.drop i c.plain := by
  unfold drop plain
  simp only [List.map_set]
  rfl

theorem plain_afterSend (w : Worker P.recorded) (i : ℕ) (kind : ReqKind) (c : Conn P.recorded)
    (s : Sent P.recorded) :
    (w.afterSend i kind c s).plain = w.plain.afterSend i kind c.plain s.plain := by
  unfold afterSend
  dsimp only
  rw [apply_ite plain, plain_put, plain_putDirty]
  rfl

theorem plain_up (w : Worker P.recorded) (i : ℕ) (c : Conn P.recorded) (job : DialJob) :
    (w.up i c job).plain = w.plain.up i c.plain job := by
  unfold up
  have hput := plain_put w i c.up
  exact congrArg (fun w : Worker P => { w with ready := w.ready + 1, log := .up job.purpose :: w.log })
    hput

theorem plain_rateResponse (w : Worker P.recorded) (i : ℕ) (s : Option (Conn P.recorded))
    (result : Except String ℕ) (cause : Cause) :
    (w.rateResponse i s result cause).plain =
      w.plain.rateResponse i (s.map Conn.plain) result cause := by
  unfold rateResponse plain
  cases s with
  | none => rfl
  | some c =>
    simp only [Option.elim_some, Option.map_some, List.map_set]
    rfl

theorem plain_flushed (w : Worker P.recorded) (i : ℕ) (r : Conn P.recorded × Bool × ℕ)
    (now : Instant) :
    (w.flushed i r now).plain = w.plain.flushed i (Conn.plainOf r) now := by
  unfold flushed
  rw [plain_schedule, plain_put, apply_ite Conn.plain]
  rfl

theorem plain_evict (w : Worker P.recorded) (i : ℕ) : (w.evict i).plain = w.plain.evict i := by
  unfold evict
  rw [plain_conn]
  unfold plain
  simp only [List.map_set]
  cases w.conn i <;> rfl

theorem plain_takeSlot (w : Worker P.recorded) (slot : Option ℕ) :
    ((w.takeSlot slot).1, (w.takeSlot slot).2.plain) = w.plain.takeSlot slot := by
  cases slot with
  | some i => exact congrArg (fun w => (i, w)) (plain_evict w i)
  | none =>
    unfold takeSlot allocSlot
    dsimp only
    rw [Worker.plain_free]
    cases w.free with
    | nil =>
      have hlen : w.plain.slots.length = w.slots.length := List.length_map ..
      simp only [hlen]
      unfold plain
      simp
    | cons i rest => rfl

theorem plain_popTimer (w : Worker P.recorded) (rest : List Timer) (i : ℕ) (c : Conn P.recorded) :
    (w.popTimer rest i c).plain = w.plain.popTimer rest i c.plain := by
  unfold popTimer
  exact plain_put ..

theorem length_plain (w : Worker P.recorded) : w.plain.slots.length = w.slots.length :=
  List.length_map ..

theorem plain_slotsWhere (w : Worker P.recorded) {p : Conn P.recorded → Bool} {p' : Conn P → Bool}
    (hp : ∀ c, p c = p' c.plain) : w.slotsWhere p = w.plain.slotsWhere p' := by
  unfold slotsWhere
  rw [length_plain]
  refine List.filter_congr (fun i _ => ?_)
  rw [plain_conn]
  cases w.conn i with
  | none => rfl
  | some c => exact hp c

theorem plain_occupied (w : Worker P.recorded) : w.occupied = w.plain.occupied :=
  plain_slotsWhere w (fun _ => rfl)

theorem plain_broken (w : Worker P.recorded) : w.broken = w.plain.broken :=
  plain_slotsWhere w (fun _ => rfl)

theorem plain_serving (w : Worker P.recorded) : w.serving = w.plain.serving :=
  plain_slotsWhere w (fun _ => rfl)

theorem plain_startEcho (w : Worker P.recorded) (job : EchoJob) (concurrency : ℕ) :
    (w.startEcho job concurrency).plain = w.plain.startEcho job concurrency := by
  unfold startEcho
  dsimp only
  rw [plain_occupied]
  rfl

theorem plain_startRate (w : Worker P.recorded) (job : RateJob) (now : Instant) :
    (w.startRate job now).plain = w.plain.startRate job now := by
  unfold startRate
  have hslots : (w.slots.map (Option.map Conn.resetInFlight)).map (Option.map Conn.plain) =
      w.plain.slots.map (Option.map Conn.resetInFlight) := by
    unfold plain
    rw [List.map_map, List.map_map]
    refine List.map_congr_left (fun s _ => ?_)
    cases s with
    | none => rfl
    | some c => exact congrArg some (apply_ite Conn.plain ..)
  rw [plain_serving]
  exact congrArg (fun slots : List (Option (Conn P)) => { w.plain with
    slots := slots
    phase := .rate (RatePhase.start job w.plain.serving now) }) hslots

end Worker

end Http3Bench
