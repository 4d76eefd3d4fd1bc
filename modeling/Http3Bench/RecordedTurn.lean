import Http3Bench.Lib.Images
import Http3Bench.Recorded
import Http3Bench.Thread

/-!
# The worker's programs without the record

Each program of the worker does without the record what it does with it, down to a turn of the event
loop; so every run of a thread is one of a thread on the recorded platform.
-/

namespace Http3Bench

open Lib

variable {P : Platform}

/-! ### Requests -/

theorem plain_osCall {β : Type} (f : P.Os → β × P.Os) :
    Images Worker.plain id (osCall (P := P.recorded) f) (osCall f) :=
  images_modifyGet (fun _ => rfl)

theorem plain_instantNow : Images Worker.plain id (instantNow (P := P.recorded)) instantNow :=
  images_modifyGet (fun _ => rfl)

theorem plain_slotAt (i : ℕ) :
    Images Worker.plain (Option.map Conn.plain) (slotAt (P := P.recorded) i) (slotAt i) := by
  refine images_get_bind (fun w => ?_)
  have hslot : w.plain.slots[i]? = (w.slots[i]?).map (Option.map Conn.plain) := List.getElem?_map
  rw [hslot]
  cases w.slots[i]? with
  | none => exact images_throw
  | some s => exact images_pure rfl

theorem plain_unwrapSlot (i : ℕ) :
    Images Worker.plain Conn.plain (unwrapSlot (P := P.recorded) i) (unwrapSlot i) := by
  refine (plain_slotAt i).bind (fun s => ?_)
  cases s with
  | none => exact images_throw
  | some c => exact images_pure rfl

theorem plain_echoDone (i : ℕ) (result : Except String ℕ) (start : Instant) (n : ℕ) :
    Images Worker.plain id (echoDone (P := P.recorded) i result start n) (echoDone i result start n) := by
  refine plain_instantNow.bind_same (fun now => images_get_bind (fun w => ?_))
  rw [Worker.plain_phase]
  cases w.phase with
  | echo e =>
    dsimp only
    split
    · exact images_throw
    · exact images_set rfl
  | _ => exact images_pure rfl

theorem plain_settleRate : Images Worker.plain id (settleRate (P := P.recorded)) settleRate := by
  refine images_get_bind (fun w => ?_)
  rw [Worker.plain_phase]
  cases w.phase with
  | ratePrep job redials f =>
    dsimp only
    split
    · exact images_throw
    · exact images_set rfl
  | _ => exact images_pure rfl

theorem plain_dialFailedJob (job : DialJob) (err : String) :
    Images Worker.plain id (dialFailedJob (P := P.recorded) job err) (dialFailedJob job err) := by
  refine images_get_bind (fun w => ?_)
  rw [Worker.plain_phase, Worker.plain_cfg]
  split
  · exact plain_instantNow.bind_same (fun now => images_modify (fun _ => rfl))
  · cases job.purpose with
    | new =>
      cases w.phase with
      | dial d =>
        dsimp only
        split
        · exact images_throw
        · exact images_set rfl
      | _ => exact images_pure rfl
    | redialEcho start n =>
      cases job.slot with
      | none => exact images_pure rfl
      | some i => exact plain_echoDone i _ start n
    | redialRate => exact plain_settleRate

theorem plain_dialFailed (i : ℕ) (err : String) :
    Images Worker.plain id (dialFailed (P := P.recorded) i err) (dialFailed i err) := by
  refine (plain_slotAt i).bind (fun s => ?_)
  cases s with
  | none => exact images_pure rfl
  | some c =>
    simp only [Option.map_some]
    rw [Conn.plain_dial]
    cases c.dial with
    | none => exact images_pure rfl
    | some job =>
      dsimp only
      split
      · exact (images_modify (fun w => w.plain_drop i c)).bind_same
          (fun _ => plain_dialFailedJob _ err)
      · exact (images_modify (fun w => w.plain_put i c.broke)).bind_same
          (fun _ => plain_dialFailedJob job err)

theorem plain_trySend (i : ℕ) (kind : ReqKind) (body : Body) :
    Images Worker.plain id (trySend (P := P.recorded) i kind body) (trySend i kind body) := by
  refine (plain_unwrapSlot i).bind (fun c => images_get_bind (fun w => ?_))
  have hsend := c.plain_trySend (w.headersFor kind) kind body
  have hheaders : w.plain.headersFor kind = w.headersFor kind := rfl
  dsimp only
  rw [hheaders, ← hsend]
  exact (images_set (w.plain_afterSend i kind c _)).bind_same (fun _ => images_pure rfl)

theorem plain_sendRequest (i : ℕ) (kind : ReqKind) (body : Body) :
    Images Worker.plain id (sendRequest (P := P.recorded) i kind body) (sendRequest i kind body) := by
  refine (plain_unwrapSlot i).bind (fun c => ?_)
  rw [Conn.plain_queued]
  split
  · exact (images_modify (fun w => w.plain_put i _)).bind_same (fun _ => images_pure rfl)
  · refine (plain_trySend i kind body).bind_same (fun res => ?_)
    cases res with
    | ok u => exact images_pure rfl
    | error e =>
      cases e with
      | failed e => exact images_pure rfl
      | blocked e =>
        dsimp only
        split
        · exact images_pure rfl
        · refine (plain_unwrapSlot i).bind (fun c => ?_)
          exact (images_modify (fun w => w.plain_put i _)).bind_same (fun _ => images_pure rfl)

theorem plain_dialOk (i : ℕ) : Images Worker.plain id (dialOk (P := P.recorded) i) (dialOk i) := by
  refine (plain_unwrapSlot i).bind (fun c => ?_)
  rw [Conn.plain_dial]
  cases c.dial with
  | none => exact images_pure rfl
  | some job =>
    refine (images_modify (fun w => w.plain_up i c job)).bind_same (fun _ => ?_)
    cases job.purpose with
    | new =>
      have hcount : ∀ w : Worker P.recorded, w.countConnected.plain = w.plain.countConnected :=
        fun _ => rfl
      refine (images_modify hcount).bind_same (fun _ => images_get_bind (fun w => ?_))
      rw [Worker.plain_phase]
      cases w.phase with
      | dial d =>
        dsimp only
        split
        · exact images_throw
        · exact plain_instantNow.bind_same (fun now => images_modify (fun _ => rfl))
      | _ => exact images_pure rfl
    | redialEcho start n =>
      refine images_get_bind (fun w => ?_)
      rw [Worker.plain_phase]
      cases w.phase with
      | echo e =>
        dsimp only
        cases e.job.payloads.head? with
        | none => exact images_throw
        | some payload =>
          refine (plain_sendRequest i _ payload).bind_same (fun res => ?_)
          cases res with
          | ok u => exact images_pure rfl
          | error e => exact plain_echoDone i _ start n
      | _ => exact images_pure rfl
    | redialRate => exact plain_settleRate

theorem plain_response (i : ℕ) (kind : ReqKind) (result : Except String ℕ) (cause : Cause) :
    Images Worker.plain id (response (P := P.recorded) i kind result cause)
      (response i kind result cause) := by
  cases kind with
  | dial =>
    cases result with
    | ok n => exact plain_dialOk i
    | error e => exact plain_dialFailed i e
  | echo start n => exact plain_echoDone i result start n
  | rate =>
    refine (plain_slotAt i).bind (fun s => ?_)
    exact images_modify (fun w => w.plain_rateResponse i s result cause)

theorem plain_sendQueuedWithin (i fuel : ℕ) :
    Images Worker.plain id (sendQueuedWithin (P := P.recorded) i fuel) (sendQueuedWithin i fuel) := by
  induction fuel with
  | zero => exact images_pure rfl
  | succ fuel ih =>
    refine (plain_slotAt i).bind (fun s => ?_)
    cases s with
    | none => exact images_pure rfl
    | some c =>
      have hclosed : P.recorded.isClosed c.q = P.isClosed c.plain.q := rfl
      simp only [Option.map_some]
      rw [hclosed, Conn.plain_queued]
      split
      · exact images_pure rfl
      · cases c.queued with
        | nil => exact images_pure rfl
        | cons r rest =>
          refine (images_modify (fun w => w.plain_put i _)).bind_same (fun _ => ?_)
          refine (plain_trySend i r.1 r.2).bind_same (fun res => ?_)
          cases res with
          | ok u => exact ih
          | error e =>
            cases e with
            | blocked e =>
              refine (plain_unwrapSlot i).bind (fun c => ?_)
              exact images_modify (fun w => w.plain_put i _)
            | failed e => exact (plain_response i r.1 _ _).bind_same (fun _ => ih)

theorem plain_sendQueued (i : ℕ) :
    Images Worker.plain id (sendQueued (P := P.recorded) i) (sendQueued i) := by
  refine images_get_bind (fun w => ?_)
  have hlength : (w.plain.conn i).elim 0 (fun c => c.queued.length) =
      (w.conn i).elim 0 (fun c => c.queued.length) := by
    rw [Worker.plain_conn]
    cases w.conn i <;> rfl
  rw [hlength]
  exact plain_sendQueuedWithin i _

theorem plain_closed (i : ℕ) (reason : String) :
    Images Worker.plain id (closed (P := P.recorded) i reason) (closed i reason) := by
  refine (plain_slotAt i).bind (fun s => ?_)
  cases s with
  | none => exact images_pure rfl
  | some c =>
    simp only [Option.map_some]
    rw [Conn.plain_state]
    cases c.state with
    | connecting => exact plain_dialFailed i reason
    | ready => exact images_modify (fun w => congrArg
        (fun w : Worker P => { w with ready := w.ready - 1 }) (w.plain_put i _))
    | broken => exact images_pure rfl

theorem plain_handle (i : ℕ) (ev : ConnEvent) :
    Images Worker.plain id (handle (P := P.recorded) i ev) (handle i ev) := by
  cases ev with
  | established =>
    refine (plain_sendRequest i .dial []).bind_same (fun res => ?_)
    cases res with
    | ok u => exact images_pure rfl
    | error e => exact plain_dialFailed i e
  | response kind result cause => exact plain_response i kind result cause
  | closed reason => exact plain_closed i reason

theorem plain_handleAll (i : ℕ) (evs : List ConnEvent) :
    Images Worker.plain id (handleAll (P := P.recorded) i evs) (handleAll i evs) := by
  induction evs with
  | nil => exact images_pure rfl
  | cons ev rest ih => exact (plain_handle i ev).bind_same (fun _ => ih)

theorem plain_process (i : ℕ) : Images Worker.plain id (process (P := P.recorded) i) (process i) := by
  refine images_get_bind (fun w => ?_)
  rw [Worker.plain_conn]
  cases w.conn i with
  | none => exact images_pure rfl
  | some c =>
    have hprocess := c.plain_processConn w.cfg.check
    simp only [Option.map_some]
    rw [Worker.plain_cfg, ← hprocess]
    refine (images_set (w.plain_putDirty i _)).bind_same (fun _ => ?_)
    exact (plain_handleAll i _).bind_same (fun _ => plain_sendQueued i)

/-! ### Dialing, timers and sockets -/

theorem plain_flush (i : ℕ) : Images Worker.plain id (flush (P := P.recorded) i) (flush i) := by
  refine images_get_bind (fun w => ?_)
  rw [Worker.plain_conn]
  cases w.conn i with
  | none => exact images_pure rfl
  | some c =>
    refine (plain_osCall (P.sendAnswers c.sock)).bind_same (fun answers => ?_)
    have hloop := Conn.plain_sendLoop { c with dirty := false } false answers
    have hplain : ({ c with dirty := false } : Conn P.recorded).plain = { c.plain with dirty := false } :=
      rfl
    rw [hplain] at hloop
    dsimp only
    rw [← hloop]
    refine plain_instantNow.bind_same (fun now => ?_)
    refine (images_modify (fun w => w.plain_flushed i _ now)).bind_same (fun _ => ?_)
    have herror : ∀ r : Conn P.recorded × Bool × ℕ, (Conn.plainOf r).1.socketError = r.1.socketError :=
      fun _ => rfl
    rw [herror]
    split
    · exact plain_process i
    · exact images_pure rfl

theorem plain_flushDirtyTurn :
    Images Worker.plain id (flushDirtyTurn (P := P.recorded)) flushDirtyTurn := by
  refine images_get_bind (fun w => ?_)
  rw [Worker.plain_dirty]
  cases w.dirty with
  | nil => exact images_pure rfl
  | cons i rest =>
    have hany : (w.plain.conn i).any (fun c => c.dirty) = (w.conn i).any (fun c => c.dirty) := by
      rw [Worker.plain_conn]
      cases w.conn i <;> rfl
    dsimp only
    rw [hany]
    refine (images_set rfl).bind_same (fun _ => ?_)
    split
    · exact (plain_flush i).bind_same (fun _ => images_pure rfl)
    · exact (images_pure rfl).bind_same (fun _ => images_pure rfl)

theorem plain_takeSlot (slot : Option ℕ) :
    Images Worker.plain id (takeSlot (P := P.recorded) slot) (takeSlot slot) := by
  refine images_get_bind (fun w => ?_)
  rw [← w.plain_takeSlot, Worker.length_plain]
  split
  · exact images_throw
  · exact (images_set rfl).bind_same (fun _ => images_pure rfl)

theorem plain_checkSlot (i : ℕ) :
    Images Worker.plain id (checkSlot (P := P.recorded) i) (checkSlot i) := by
  refine images_get_bind (fun w => ?_)
  rw [Worker.length_plain]
  split
  · exact images_pure rfl
  · exact images_throw

/-- What is opened is the same, since there is no HTTP/3 connection yet. -/
def Dialed.plain (d : Dialed P.recorded) : Dialed P := ⟨d.sock, d.localAddr, d.peer, d.q⟩

theorem plain_openSocket (peer : SocketAddr) :
    Images Worker.plain (Except.map Dialed.plain) (openSocket (P := P.recorded) peer)
      (openSocket peer) := by
  refine images_get_bind (fun w => ?_)
  refine (plain_osCall (P.bind _)).bind_same (fun sock => ?_)
  cases sock with
  | error e => exact images_pure rfl
  | ok sock =>
    refine (plain_osCall (P.connect sock peer)).bind_same (fun res => ?_)
    cases res with
    | error e => exact images_pure rfl
    | ok u =>
      refine (plain_osCall (P.localAddr sock)).bind_same (fun addr => ?_)
      cases addr with
      | error e => exact images_pure rfl
      | ok addr =>
        refine (plain_osCall (P.quicheConnect w.cfg.serverName addr peer)).bind_same (fun q => ?_)
        cases q with
        | error e => exact images_pure rfl
        | ok q => exact images_pure rfl

theorem plain_nextPeer (job : DialJob) :
    Images Worker.plain id (nextPeer (P := P.recorded) job) (nextPeer job) := by
  refine images_get_bind (fun w => (images_set rfl).bind_same (fun _ => ?_))
  rw [Worker.plain_cfg, Worker.plain_shared]
  cases w.cfg.addrs[w.shared.addrCounter % w.cfg.addrs.length]? with
  | none => exact images_throw
  | some peer => exact images_pure rfl

theorem plain_note (e : Entry) : Images Worker.plain id (note (P := P.recorded) e) (note e) :=
  images_modify (fun _ => rfl)

theorem plain_tryDial (job : DialJob) :
    Images Worker.plain id (tryDial (P := P.recorded) job) (tryDial job) := by
  refine (plain_nextPeer job).bind_same (fun peer => (plain_openSocket peer).bind (fun d => ?_))
  cases d with
  | error e => exact (plain_note _).bind_same (fun _ => images_pure rfl)
  | ok d =>
    refine (plain_takeSlot job.slot).bind_same (fun i => ?_)
    refine (plain_osCall (P.register d.sock i)).bind_same (fun res => ?_)
    cases res with
    | error e => exact (plain_note _).bind_same (fun _ => images_pure rfl)
    | ok u =>
      refine plain_instantNow.bind_same (fun now => (plain_checkSlot i).bind_same (fun _ => ?_))
      have hinstall : ∀ w : Worker P.recorded, (w.install i d job now).plain =
          w.plain.install i d.plain job now := fun w => congrArg
        (fun w : Worker P => { w with serial := w.serial + 1 }) (w.plain_put i _)
      refine (images_modify hinstall).bind_same (fun _ => ?_)
      exact (plain_flush i).bind_same (fun _ => images_pure rfl)

theorem plain_dial (job : DialJob) : Images Worker.plain id (dial (P := P.recorded) job) (dial job) := by
  refine (plain_tryDial job).bind_same (fun res => ?_)
  cases res with
  | ok u => exact images_pure rfl
  | error e => exact plain_dialFailedJob job e

theorem plain_dialAll (jobs : List DialJob) :
    Images Worker.plain id (dialAll (P := P.recorded) jobs) (dialAll jobs) := by
  induction jobs with
  | nil => exact images_pure rfl
  | cons job rest ih => exact (plain_dial job).bind_same (fun _ => ih)

theorem plain_fireRetriesTurn (now : Instant) :
    Images Worker.plain id (fireRetriesTurn (P := P.recorded) now) (fireRetriesTurn now) := by
  refine images_get_bind (fun w => ?_)
  rw [Worker.plain_retries]
  cases w.retries with
  | nil => exact images_pure rfl
  | cons r rest =>
    dsimp only
    split
    · exact images_pure rfl
    · refine (images_set rfl).bind_same (fun _ => ?_)
      exact (plain_dial r.2).bind_same (fun _ => images_pure rfl)

theorem plain_fireTimersTurn (now : Instant) :
    Images Worker.plain id (fireTimersTurn (P := P.recorded) now) (fireTimersTurn now) := by
  refine images_get_bind (fun w => ?_)
  rw [Worker.plain_timers]
  cases w.timers with
  | nil => exact images_pure rfl
  | cons timer rest =>
    obtain ⟨t, i⟩ := timer
    dsimp only
    rw [Worker.plain_conn]
    split
    · exact images_pure rfl
    · cases w.conn i with
      | none => exact (images_set rfl).bind_same (fun _ => images_pure rfl)
      | some c =>
        have hpop := w.plain_popTimer rest i c
        simp only [Option.map_some]
        rw [Conn.plain_scheduled, Conn.plain_deadline, Conn.plain_state, Conn.plain_attemptDeadline,
          ← hpop]
        split
        · exact (images_set rfl).bind_same (fun _ => images_pure rfl)
        · split
          · exact (images_set (Worker.plain_schedule _ i)).bind_same (fun _ => images_pure rfl)
          · split
            · refine (images_set rfl).bind_same (fun _ => ?_)
              exact (plain_dialFailed i _).bind_same (fun _ => images_pure rfl)
            · refine (images_set (Worker.plain_putDirty _ i _)).bind_same (fun _ => ?_)
              exact (plain_process i).bind_same (fun _ => images_pure rfl)

theorem plain_onReadable (i : ℕ) :
    Images Worker.plain id (onReadable (P := P.recorded) i) (onReadable i) := by
  refine images_get_bind (fun w => ?_)
  rw [Worker.plain_conn]
  cases w.conn i with
  | none => exact images_pure rfl
  | some c =>
    refine (plain_osCall (P.recvAll c.sock)).bind_same (fun ds => ?_)
    refine plain_instantNow.bind_same (fun now => ?_)
    exact (images_modify (fun w => w.plain_put i _)).bind_same (fun _ => plain_process i)

theorem plain_keepaliveFrom (now : Instant) (is : List ℕ) :
    Images Worker.plain id (keepaliveFrom (P := P.recorded) now is) (keepaliveFrom now is) := by
  induction is with
  | nil => exact images_pure rfl
  | cons i rest ih =>
    refine (plain_slotAt i).bind (fun s => ?_)
    cases s with
    | none => exact ih
    | some c =>
      refine images_get_bind (fun w => ?_)
      rw [Conn.plain_state, Conn.plain_streams, Conn.plain_lastActive, Worker.plain_keepalive]
      split
      · exact (images_set (w.plain_putDirty i _)).bind_same (fun _ => ih)
      · exact ih

theorem plain_keepalive (now : Instant) :
    Images Worker.plain id (keepalive (P := P.recorded) now) (keepalive now) := by
  refine images_get_bind (fun w => ?_)
  rw [Worker.plain_nextKeepalive, Worker.length_plain]
  split
  · exact images_pure rfl
  · exact (images_set rfl).bind_same (fun _ => plain_keepaliveFrom now _)

theorem plain_closeFrom (is : List ℕ) :
    Images Worker.plain id (closeFrom (P := P.recorded) is) (closeFrom is) := by
  induction is with
  | nil => exact images_pure rfl
  | cons i rest ih =>
    refine (plain_slotAt i).bind (fun s => ?_)
    cases s with
    | none => exact ih
    | some c =>
      have hclosed : P.recorded.isClosed c.q = P.isClosed c.plain.q := rfl
      simp only [Option.map_some]
      rw [hclosed]
      split
      · exact ih
      · refine (images_modify (fun w => w.plain_put i _)).bind_same (fun _ => ?_)
        exact (plain_flush i).bind_same (fun _ => ih)

theorem plain_closeAll : Images Worker.plain id (closeAll (P := P.recorded)) closeAll := by
  refine images_get_bind (fun w => ?_)
  rw [Worker.length_plain]
  exact plain_closeFrom _

/-! ### The event loop -/

theorem plain_finish (o : Outcome) : Images Worker.plain id (finish (P := P.recorded) o) (finish o) :=
  images_modify (fun _ => rfl)

theorem plain_setPhase (p : Phase) :
    Images Worker.plain id (modify fun w : Worker P.recorded => { w with phase := p } : WorkerM _ PUnit)
      (modify fun w => { w with phase := p }) :=
  images_modify (fun _ => rfl)

theorem plain_newJobs (start : Instant) (purpose : Purpose) (slots : List (Option ℕ)) :
    Images Worker.plain id (newJobs (P := P.recorded) start purpose slots)
      (newJobs start purpose slots) :=
  images_modifyGet (fun _ => rfl)

theorem plain_start (cmd : Command) :
    Images Worker.plain id (start (P := P.recorded) cmd) (start cmd) := by
  cases cmd with
  | dial count concurrency => exact images_modify (fun _ => rfl)
  | echo job concurrency => exact images_modify (fun w => w.plain_startEcho job concurrency)
  | rate job =>
    have hset : ∀ w : Worker P.recorded, (w.setPostHeaders job.payload.length).plain =
        w.plain.setPostHeaders job.payload.length := fun _ => rfl
    refine (images_modify hset).bind_same (fun _ => images_get_bind (fun w => ?_))
    rw [← Worker.plain_broken]
    refine plain_instantNow.bind_same (fun now => ?_)
    refine (plain_newJobs now .redialRate _).bind_same (fun jobs => images_get_bind (fun w' => ?_))
    exact (plain_dialAll jobs).bind_same (fun _ => images_modify (fun _ => rfl))
  | stop => exact images_pure rfl

theorem plain_limiterTake (limited : Bool) (n : ℕ) :
    Images Worker.plain id (limiterTake (P := P.recorded) limited n) (limiterTake limited n) := by
  cases limited with
  | false => exact images_pure rfl
  | true => exact plain_osCall (P.limiterTake n)

theorem plain_fetchIssued : Images Worker.plain id (fetchIssued (P := P.recorded)) fetchIssued :=
  images_modifyGet (fun _ => rfl)

theorem plain_runTicket (e : EchoPhase) (i n : ℕ) :
    Images Worker.plain id (runTicket (P := P.recorded) e i n) (runTicket e i n) := by
  unfold runTicket
  cases e.job.payloads[n % e.job.payloads.length]? with
  | none => exact images_throw
  | some payload =>
    refine plain_instantNow.bind_same (fun start => (plain_unwrapSlot i).bind (fun c => ?_))
    rw [Conn.plain_state]
    split
    · exact (images_modifyGet (fun _ => rfl)).bind_same (fun job => plain_dial job)
    · refine (plain_sendRequest i _ payload).bind_same (fun res => ?_)
      cases res with
      | ok u => exact images_pure rfl
      | error e => exact plain_echoDone i _ start n

theorem plain_drawTicket (e : EchoPhase) :
    Images Worker.plain id (drawTicket (P := P.recorded) e) (drawTicket e) := by
  unfold drawTicket
  cases e.idle with
  | nil => exact images_pure rfl
  | cons i rest =>
    refine plain_fetchIssued.bind_same (fun n => ?_)
    split
    · exact (plain_setPhase _).bind_same (fun _ => images_pure rfl)
    · refine (plain_setPhase _).bind_same (fun _ => ?_)
      exact (plain_runTicket e i n).bind_same (fun _ => images_pure rfl)

theorem plain_driveEchoTurn (now : Instant) :
    Images Worker.plain id (driveEchoTurn (P := P.recorded) now) (driveEchoTurn now) := by
  refine images_get_bind (fun w => ?_)
  rw [Worker.plain_phase]
  cases w.phase with
  | echo e =>
    dsimp only
    split
    · exact (plain_finish _).bind_same (fun _ => images_pure rfl)
    · split
      · exact images_pure rfl
      · split
        · exact images_pure rfl
        · refine (images_set rfl).bind_same (fun _ => ?_)
          refine (plain_limiterTake e.job.limited 1).bind_same (fun wait => ?_)
          cases wait with
          | some wait => exact (plain_setPhase _).bind_same (fun _ => images_pure rfl)
          | none => exact plain_drawTicket _
  | _ => exact images_pure rfl

theorem plain_rateBatch (job : RateJob) (i k sent : ℕ) :
    Images Worker.plain id (rateBatch (P := P.recorded) job i k sent) (rateBatch job i k sent) := by
  induction k generalizing sent with
  | zero => exact images_pure rfl
  | succ k ih =>
    refine (plain_sendRequest i .rate job.payload).bind_same (fun res => ?_)
    cases res with
    | error e => exact images_pure rfl
    | ok u =>
      refine (plain_unwrapSlot i).bind (fun c => ?_)
      exact (images_modify (fun w => w.plain_put i _)).bind_same (fun _ => ih _)

theorem plain_rateConns (job : RateJob) (is : List ℕ) (sent : ℕ) :
    Images Worker.plain id (rateConns (P := P.recorded) job is sent) (rateConns job is sent) := by
  induction is generalizing sent with
  | nil => exact images_pure rfl
  | cons i rest ih =>
    refine (plain_slotAt i).bind (fun s => ?_)
    cases s with
    | none => exact ih sent
    | some c =>
      have hskips : skips job c.plain = skips job c := rfl
      simp only [Option.map_some]
      rw [hskips]
      split
      · exact ih sent
      · refine (plain_limiterTake job.limited job.batch).bind_same (fun wait => ?_)
        cases wait with
        | some wait => exact ih sent
        | none => exact (plain_rateBatch job i job.batch sent).bind_same (fun sent => ih sent)

theorem plain_rateTick : Images Worker.plain id (rateTick (P := P.recorded)) rateTick := by
  refine images_get_bind (fun w => ?_)
  rw [Worker.plain_phase]
  cases w.phase with
  | rate r =>
    refine (plain_rateConns r.job r.conns 0).bind_same (fun sent => ?_)
    exact images_modify (fun _ => rfl)
  | _ => exact images_pure rfl

theorem plain_driveRate (now : Instant) :
    Images Worker.plain id (driveRate (P := P.recorded) now) (driveRate now) := by
  refine images_get_bind (fun w => ?_)
  rw [Worker.plain_phase]
  cases w.phase with
  | rate r =>
    dsimp only
    cases r.graceUntil with
    | some grace =>
      dsimp only
      split
      · exact plain_finish _
      · exact images_pure rfl
    | none =>
      dsimp only
      split
      · exact images_set rfl
      · split
        · exact images_pure rfl
        · split
          · exact images_throw
          · exact (images_set rfl).bind_same (fun _ => plain_rateTick)
  | _ => exact images_pure rfl

theorem plain_drive (now : Instant) :
    Images Worker.plain id (drive (P := P.recorded) now) (drive now) := by
  refine images_get_bind (fun w => ?_)
  rw [Worker.plain_phase]
  cases w.phase with
  | idle => exact images_pure rfl
  | dial d =>
    dsimp only
    split
    · exact plain_finish _
    · refine (images_set rfl).bind_same (fun _ => ?_)
      exact (plain_newJobs now .new _).bind_same (fun jobs => plain_dialAll jobs)
  | echo e => exact images_pure rfl
  | ratePrep job redials failed =>
    dsimp only
    split
    · exact images_set (w.plain_startRate job now)
    · exact images_pure rfl
  | rate r => exact plain_driveRate now

theorem plain_recvCommands (fuel : ℕ) (stop : Bool) :
    Images Worker.plain id (recvCommands (P := P.recorded) fuel stop) (recvCommands fuel stop) := by
  induction fuel generalizing stop with
  | zero => exact images_pure rfl
  | succ fuel ih =>
    refine images_get_bind (fun w => ?_)
    rw [Worker.plain_rx]
    cases w.rx with
    | nil => exact images_pure rfl
    | cons cmd rest =>
      refine (images_set rfl).bind_same (fun _ => ?_)
      exact (plain_start cmd).bind_same (fun _ => ih _)

theorem plain_wake (tokens : List Token) (stop : Bool) (readable : List ℕ) :
    Images Worker.plain id (wake (P := P.recorded) tokens stop readable) (wake tokens stop readable) := by
  induction tokens generalizing stop readable with
  | nil => exact images_pure rfl
  | cons token rest ih =>
    cases token with
    | waker =>
      refine images_get_bind (fun w => ?_)
      exact (plain_recvCommands w.rx.length stop).bind_same (fun stop => ih stop readable)
    | slot i => exact ih stop _

theorem plain_readAll (is : List ℕ) :
    Images Worker.plain id (readAll (P := P.recorded) is) (readAll is) := by
  induction is with
  | nil => exact images_pure rfl
  | cons i rest ih => exact (plain_onReadable i).bind_same (fun _ => ih)

theorem plain_turn (pt : Point) : Images Worker.plain id (turn (P := P.recorded) pt) (turn pt) := by
  have hnext : ∀ (more : Bool) (pt pt' : Point), Images Worker.plain id
      (if more then pure pt else pure pt' : WorkerM P.recorded Point)
      (if more then pure pt else pure pt') := by
    intro more pt pt'
    cases more <;> exact images_pure rfl
  cases pt with
  | poll =>
    refine images_get_bind (fun w => ?_)
    refine (plain_osCall (P.poll w.plain.nextWakeup)).bind_same (fun tokens => ?_)
    refine (plain_wake tokens false []).bind_same (fun r => ?_)
    refine (plain_readAll r.2).bind_same (fun _ => ?_)
    exact plain_instantNow.bind_same (fun now => images_pure rfl)
  | timers now stop => exact (plain_fireTimersTurn now).bind_same (fun more => hnext more _ _)
  | retries now stop => exact (plain_fireRetriesTurn now).bind_same (fun more => hnext more _ _)
  | drive now stop =>
    refine images_get_bind (fun w => ?_)
    rw [Worker.plain_phase]
    split
    · exact images_pure rfl
    · refine (plain_drive now).bind_same (fun _ => ?_)
      exact (plain_keepalive now).bind_same (fun _ => images_pure rfl)
  | echo now stop =>
    refine (plain_driveEchoTurn now).bind_same (fun more => ?_)
    cases more with
    | true => exact images_pure rfl
    | false => exact (plain_keepalive now).bind_same (fun _ => images_pure rfl)
  | dirty stop =>
    refine plain_flushDirtyTurn.bind_same (fun more => ?_)
    cases more with
    | true => exact images_pure rfl
    | false =>
      cases stop with
      | true => exact plain_closeAll.bind_same (fun _ => images_pure rfl)
      | false => exact images_pure rfl
  | stopped => exact images_pure rfl

namespace Thread

/-- The thread without the record. -/
def plain (t : Thread P.recorded) : Thread P := ⟨t.w.plain, t.pt⟩

theorem Step.plain {t t' : Thread P.recorded} (h : Step t t') : Step t.plain t'.plain := by
  cases h with
  | turn hturn => exact .turn ((plain_turn _).ok hturn)
  | interfere shared => exact .interfere shared
  | command cmd hidle hrx hstop => exact .command cmd hidle hrx hstop

theorem Step.exists_recorded {t : Thread P.recorded} {t' : Thread P} (h : Step t.plain t') :
    ∃ r, Step t r ∧ r.plain = t' := by
  obtain ⟨w, pt⟩ := t
  generalize hs : Thread.plain ⟨w, pt⟩ = s at h
  cases h with
  | turn hturn =>
    cases hs
    obtain ⟨pt', w', hok, rfl, rfl⟩ := (plain_turn pt).exists_ok hturn
    exact ⟨⟨w', pt'⟩, .turn hok, rfl⟩
  | interfere shared =>
    cases hs
    exact ⟨⟨{ w with shared := shared }, pt⟩, .interfere shared, rfl⟩
  | command cmd hidle hrx hstop =>
    cases hs
    exact ⟨⟨w.give cmd, pt⟩, .command cmd hidle hrx hstop, rfl⟩

/-- What is recorded changes nothing that a thread does: the threads that are reached are those that are
reached with the record, without it. -/
theorem reach_iff_recorded {cfg : EngineConfig} {t : Thread P} :
    t.Reach cfg ↔ ∃ r : Thread P.recorded, r.Reach cfg ∧ r.plain = t := by
  constructor
  · rintro ⟨os, now, hrun⟩
    induction hrun with
    | refl => exact ⟨new cfg os now, ⟨os, now, .refl⟩, rfl⟩
    | tail _ hstep ih =>
      obtain ⟨r, ⟨os', now', hrun'⟩, rfl⟩ := ih
      obtain ⟨r', hstep', hplain⟩ := hstep.exists_recorded
      exact ⟨r', ⟨os', now', hrun'.tail hstep'⟩, hplain⟩
  · rintro ⟨r, ⟨os, now, hrun⟩, rfl⟩
    refine ⟨os, now, ?_⟩
    induction hrun with
    | refl => exact .refl
    | tail _ hstep ih => exact ih.tail hstep.plain

end Thread
end Http3Bench
