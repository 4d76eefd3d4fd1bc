import Http3Bench.Server.Handover

/-!
# The server without the record

What is recorded of the calls changes nothing that the server does: a run on the recorded platform is a
run on the platform itself, and every run on the platform is one of these.
-/

namespace Http3Bench.Server

variable {P : ServerPlatform}

def Resumed.plain (r : Resumed P.recorded) : Resumed P := ⟨r.h3.1, r.conn, r.pending, r.keep⟩

theorem plain_resumeBody (h : P.recorded.H3) (q : P.recorded.Q) (p : Pending) :
    (resumeBody h q p).plain = resumeBody h.1 q p := by
  unfold resumeBody
  split
  · rfl
  · rw [recorded_sendBody]
    rcases P.sendBody p.stream (p.body.drop p.off) true h.1 q with ⟨res, h', q'⟩
    cases res with
    | ok n => rfl
    | error e => cases e <;> rfl

theorem plain_resume (h : P.recorded.H3) (q : P.recorded.Q) (p : Pending) :
    (resume h q p).plain = resume h.1 q p := by
  unfold resume
  cases p.headers with
  | none => exact plain_resumeBody h q p
  | some headers =>
    dsimp only
    rw [recorded_sendResponse]
    rcases P.sendResponse p.stream headers p.body.isEmpty h.1 q with ⟨res, h', q'⟩
    cases res with
    | ok u => exact plain_resumeBody _ q' _
    | error e => cases e <;> rfl

/-- What `resumeAll` leaves behind, without the record. -/
def plainAll (r : P.recorded.H3 × P.recorded.Q × List Pending) : P.H3 × P.Q × List Pending :=
  (r.1.1, r.2)

theorem plain_resumeAll (h : P.recorded.H3) (q : P.recorded.Q) (ps : List Pending) :
    plainAll (resumeAll h q ps) = resumeAll h.1 q ps := by
  induction ps generalizing h q with
  | nil => rfl
  | cons p rest ih =>
    have hrest := ih (resume h q p).h3 (resume h q p).conn
    calc plainAll (resumeAll h q (p :: rest))
      _ = (fun t : P.H3 × P.Q × List Pending => (t.1, t.2.1,
            if (resume h q p).keep then (resume h q p).pending :: t.2.2 else t.2.2))
          (plainAll (resumeAll (resume h q p).h3 (resume h q p).conn rest)) := rfl
      _ = (fun r : Resumed P => ((resumeAll r.h3 r.conn rest).1, (resumeAll r.h3 r.conn rest).2.1,
            if r.keep then r.pending :: (resumeAll r.h3 r.conn rest).2.2
            else (resumeAll r.h3 r.conn rest).2.2)) (resume h q p).plain := by rw [hrest]; rfl
      _ = resumeAll h.1 q (p :: rest) := by rw [plain_resume]; rfl

namespace Client

/-- The client without the record. -/
def plain (c : Client P.recorded) : Client P where
  conn := c.conn
  h3 := c.h3.map Prod.fst
  sock := c.sock
  ids := c.ids
  reqs := c.reqs
  pending := c.pending
  deadline := c.deadline
  scheduled := c.scheduled
  dirty := c.dirty
  seen := c.seen
  answered := c.answered

@[simp] theorem plain_scheduled (c : Client P.recorded) : c.plain.scheduled = c.scheduled := rfl

theorem plain_respond (c : Client P.recorded) (h : P.recorded.H3) (stream : ℕ) (r : Response) :
    (c.respond h stream r).plain = c.plain.respond h.1 stream r :=
  congrArg (fun s : Resumed P => { c.plain with
    h3 := some s.h3
    conn := s.conn
    pending := if s.keep then c.pending ++ [s.pending] else c.pending
    answered := c.answered ++ [(stream, r)] }) (plain_resume h c.conn _)

theorem plain_onEvent (c : Client P.recorded) (h : P.recorded.H3) (ev : ℕ × H3Event) :
    (c.onEvent h ev).plain = c.plain.onEvent h.1 ev := by
  obtain ⟨sid, ev⟩ := ev
  cases ev with
  | data reads =>
    unfold onEvent
    dsimp only [plain]
    cases c.reqs.lookup sid <;> rfl
  | finished =>
    unfold onEvent
    dsimp only [plain]
    cases c.reqs.lookup sid with
    | none => rfl
    | some r => exact plain_respond _ h sid r.response
  | _ => rfl

theorem plain_polled (n : ℕ) (c : Client P.recorded) : (polled n c).plain = polled n c.plain := by
  induction n generalizing c with
  | zero => rfl
  | succ n ih =>
    unfold polled
    rcases Option.eq_none_or_eq_some c.h3 with hh | ⟨h, hh⟩
    · have hplain : c.plain.h3 = none := congrArg (Option.map Prod.fst) hh
      simp only [hh, hplain]
    · have hplain : c.plain.h3 = some h.1 := congrArg (Option.map Prod.fst) hh
      simp only [hh, hplain]
      have hpoll : (P.recorded.poll h c.conn).1 = (P.poll h.1 c.plain.conn).1 := rfl
      rw [hpoll]
      cases (P.poll h.1 c.plain.conn).1 with
      | none => rfl
      | some ev => exact (ih _).trans (congrArg (polled n) (plain_onEvent _ _ ev))

theorem plain_setup (c : Client P.recorded) : c.setup.plain = c.plain.setup := by
  unfold setup
  have hnone : c.plain.h3.isNone = c.h3.isNone := Option.isNone_map ..
  have htransport : P.recorded.withTransport c.conn =
      ((P.withTransport c.conn).1.map (fun h => (h, [])), (P.withTransport c.conn).2) := rfl
  have hwith : (c.plain.h3.isNone ∧ (P.isEstablished c.plain.conn ∨ P.isInEarlyData c.plain.conn)) =
      (c.h3.isNone ∧ (P.recorded.isEstablished c.conn ∨ P.recorded.isInEarlyData c.conn)) := by
    rw [hnone]
    rfl
  by_cases h : c.h3.isNone ∧ (P.recorded.isEstablished c.conn ∨ P.recorded.isInEarlyData c.conn)
  · rw [if_pos h, if_pos (hwith.mpr h), htransport]
    simp [plain, Function.comp_def]
  · rw [if_neg h, if_neg (mt hwith.mp h)]

theorem plain_resumed (c : Client P.recorded) : c.resumed.plain = c.plain.resumed := by
  unfold resumed
  rcases Option.eq_none_or_eq_some c.h3 with hh | ⟨h, hh⟩
  · have hplain : c.plain.h3 = none := congrArg (Option.map Prod.fst) hh
    simp only [hh, hplain]
  · have hplain : c.plain.h3 = some h.1 := congrArg (Option.map Prod.fst) hh
    simp only [hh, hplain]
    exact congrArg (fun r : P.H3 × P.Q × List Pending => { c.plain with
      h3 := some r.1
      conn := r.2.1
      pending := r.2.2 }) (plain_resumeAll h c.conn c.pending)

theorem plain_process (c : Client P.recorded) : c.process.plain = c.plain.process := by
  unfold process
  rw [← plain_setup]
  rcases Option.eq_none_or_eq_some c.setup.h3 with hh | ⟨h, hh⟩
  · have hplain : c.setup.plain.h3 = none := congrArg (Option.map Prod.fst) hh
    simp only [hh, hplain]
  · have hplain : c.setup.plain.h3 = some h.1 := congrArg (Option.map Prod.fst) hh
    simp only [hh, hplain]
    rw [plain_resumed, plain_polled]
    rfl

theorem plain_sendLoop (c : Client P.recorded) (answers : List Bool) :
    (c.sendLoop answers).plain = c.plain.sendLoop answers := by
  induction answers generalizing c with
  | nil =>
    unfold sendLoop
    have hsend : P.recorded.send c.conn = P.send c.plain.conn := rfl
    rw [hsend]
    rcases P.send c.plain.conn with ⟨sent, q⟩
    cases sent <;> rfl
  | cons a rest ih =>
    unfold sendLoop
    have hsend : P.recorded.send c.conn = P.send c.plain.conn := rfl
    rw [hsend]
    rcases P.send c.plain.conn with ⟨sent, q⟩
    cases sent with
    | packet =>
      cases a with
      | false => rfl
      | true => exact ih _
    | _ => rfl

end Client

namespace Worker

/-- The worker without the record. -/
def plain (w : Worker P.recorded) : Worker P where
  sockets := w.sockets
  clients := w.clients.map (Option.map Client.plain)
  free := w.free
  ids := w.ids
  timers := w.timers
  dirty := w.dirty
  os := w.os

@[simp] theorem plain_ids (w : Worker P.recorded) : w.plain.ids = w.ids := rfl

@[simp] theorem plain_timers (w : Worker P.recorded) : w.plain.timers = w.timers := rfl

@[simp] theorem plain_dirty (w : Worker P.recorded) : w.plain.dirty = w.dirty := rfl

theorem plain_client (w : Worker P.recorded) (i : ℕ) :
    w.plain.client i = (w.client i).map Client.plain := by
  unfold client plain
  rw [List.getElem?_map]
  cases w.clients[i]? <;> rfl

theorem plain_putDirty (w : Worker P.recorded) (i : ℕ) (c : Client P.recorded) :
    (w.putDirty i c).plain = w.plain.putDirty i c.plain := by
  unfold putDirty plain
  simp only [List.map_set]
  rfl

theorem plain_deliver (w : Worker P.recorded) (i s : ℕ) (sender : SocketAddr) (data : Body) :
    (w.deliver i s sender data).plain = w.plain.deliver i s sender data := by
  unfold deliver
  rw [plain_client]
  cases w.client i with
  | none => rfl
  | some c => exact (plain_putDirty ..).trans (congrArg (w.plain.putDirty i) (Client.plain_process _))

theorem plain_allocSlot (w : Worker P.recorded) :
    (w.allocSlot.1, w.allocSlot.2.plain) = w.plain.allocSlot := by
  obtain ⟨sockets, clients, free, ids, timers, dirty, os⟩ := w
  cases free with
  | nil => simp [allocSlot, plain]
  | cons i rest => rfl

theorem plain_enrol (w : Worker P.recorded) (s : ℕ) (scid odcid : ConnectionId) (q : P.Q) :
    ((w.enrol s scid odcid q).1, (w.enrol s scid odcid q).2.plain) =
      w.plain.enrol s scid odcid q := by
  unfold enrol
  rw [← plain_allocSlot]
  simp only [plain, List.map_set]
  rfl

theorem plain_onDatagram (w : Worker P.recorded) (s : ℕ) (sender : SocketAddr) (data : Body) :
    (w.onDatagram s sender data).plain = w.plain.onDatagram s sender data := by
  have hheader : P.recorded.header data = P.header data := rfl
  unfold onDatagram
  rw [hheader, Worker.plain_ids]
  cases P.header data with
  | none => rfl
  | some hdr =>
    dsimp only
    cases w.ids.lookup hdr.dcid with
    | some i => exact plain_deliver ..
    | none =>
      dsimp only
      split
      · rfl
      · rw [apply_ite plain]
        refine congrArg (ite _ _) ?_
        have haccept : P.recorded.accept (P.recorded.fill w.os).1 (w.localAddr s) sender
            (P.recorded.fill w.os).2 =
            P.accept (P.fill w.plain.os).1 (w.plain.localAddr s) sender (P.fill w.plain.os).2 := rfl
        rw [haccept]
        rcases P.accept (P.fill w.plain.os).1 (w.plain.localAddr s) sender (P.fill w.plain.os).2
          with ⟨accepted, os⟩
        cases accepted with
        | none => rfl
        | some q =>
          have henrol := plain_enrol { w with os := os } s (P.fill w.os).1 hdr.dcid q
          refine (plain_deliver ..).trans ?_
          exact congrArg (fun a : ℕ × Worker P => a.2.deliver a.1 s sender data) henrol

theorem plain_remove (w : Worker P.recorded) (i : ℕ) : (w.remove i).plain = w.plain.remove i := by
  unfold remove
  rw [plain_client]
  cases w.client i with
  | none => rfl
  | some c => simp [plain, List.map_set, Client.plain]

theorem plain_schedule (w : Worker P.recorded) (i : ℕ) (c : Client P.recorded) :
    (w.schedule i c).plain = w.plain.schedule i c.plain := by
  have htimeout : P.recorded.timeoutInstant c.conn = P.timeoutInstant c.plain.conn := rfl
  unfold schedule
  rw [htimeout, Client.plain_scheduled]
  cases P.timeoutInstant c.plain.conn with
  | none => simp [plain, List.map_set, Client.plain]
  | some d =>
    dsimp only
    split <;> simp [plain, List.map_set, Client.plain, pushTimer]

theorem plain_flush (w : Worker P.recorded) (i : ℕ) : (w.flush i).plain = w.plain.flush i := by
  unfold flush
  rw [plain_client]
  cases w.client i with
  | none => rfl
  | some c =>
    have hend : ∀ (c : Client P.recorded) (os : P.Os),
        (if P.recorded.isClosed c.conn then
            ({ w with clients := w.clients.set i (some c), os := os } : Worker P.recorded).remove i
          else ({ w with clients := w.clients.set i (some c), os := os } : Worker P.recorded).schedule
            i c).plain =
        (fun c : Client P => if P.isClosed c.conn then
            ({ w.plain with clients := w.plain.clients.set i (some c), os := os } : Worker P).remove i
          else ({ w.plain with clients := w.plain.clients.set i (some c), os := os } : Worker P).schedule
            i c) c.plain := by
      intro c os
      have hput : ({ w with clients := w.clients.set i (some c), os := os } : Worker P.recorded).plain =
          { w.plain with clients := w.plain.clients.set i (some c.plain), os := os } := by
        simp only [plain, List.map_set]
        rfl
      dsimp only
      rw [← hput, ← plain_remove, ← plain_schedule, ← apply_ite plain]
      rfl
    refine (hend _ _).trans ?_
    rw [Client.plain_sendLoop]
    rfl

theorem plain_flushNext (w : Worker P.recorded) : w.flushNext.plain = w.plain.flushNext := by
  unfold flushNext
  rw [Worker.plain_dirty]
  cases w.dirty with
  | nil => rfl
  | cons i rest => exact plain_flush ..

theorem plain_fireNext (w : Worker P.recorded) (now : Instant) :
    (w.fireNext now).plain = w.plain.fireNext now := by
  unfold fireNext
  rw [Worker.plain_timers]
  cases w.timers with
  | nil => rfl
  | cons timer rest =>
    obtain ⟨t, i⟩ := timer
    dsimp only
    rw [apply_ite plain]
    refine congrArg (ite _ _) ?_
    have hclient : ({ w.plain with timers := rest } : Worker P).client i =
        (({ w with timers := rest } : Worker P.recorded).client i).map Client.plain :=
      plain_client { w with timers := rest } i
    rw [hclient]
    cases ({ w with timers := rest } : Worker P.recorded).client i with
    | none => rfl
    | some c =>
      dsimp only [Option.map_some]
      rw [apply_ite plain]
      refine congrArg (ite _ _) ((plain_putDirty ..).trans ?_)
      rfl

theorem Step.plain {w w' : Worker P.recorded} (h : Step w w') : Step w.plain w'.plain := by
  cases h with
  | datagram s sender data hfresh =>
    rw [plain_onDatagram]
    exact .datagram s sender data hfresh
  | flush =>
    rw [plain_flushNext]
    exact .flush
  | fire now =>
    rw [plain_fireNext]
    exact .fire now
  | os o => exact @Step.os _ w.plain o

theorem Step.exists_recorded {w : Worker P.recorded} {w' : Worker P} (h : Step w.plain w') :
    ∃ r, Step w r ∧ r.plain = w' := by
  generalize hs : w.plain = s at h
  cases h with
  | datagram s sender data hfresh =>
    cases hs
    exact ⟨_, .datagram s sender data hfresh, plain_onDatagram ..⟩
  | flush =>
    cases hs
    exact ⟨_, .flush, plain_flushNext w⟩
  | fire now =>
    cases hs
    exact ⟨_, .fire now, plain_fireNext w now⟩
  | os o =>
    cases hs
    exact ⟨{ w with os := o }, @Step.os _ w o, rfl⟩

/-- What is recorded changes nothing that a worker does: the workers that are reached are those that are
reached with the record, without it. -/
theorem reach_iff_recorded {w : Worker P} :
    w.Reach ↔ ∃ r : Worker P.recorded, r.Reach ∧ r.plain = w := by
  constructor
  · rintro ⟨sockets, os, hrun⟩
    induction hrun with
    | refl => exact ⟨new sockets os, ⟨sockets, os, .refl⟩, rfl⟩
    | tail _ hstep ih =>
      obtain ⟨r, ⟨sockets', os', hrun'⟩, rfl⟩ := ih
      obtain ⟨r', hstep', hplain⟩ := hstep.exists_recorded
      exact ⟨r', ⟨sockets', os', hrun'.tail hstep'⟩, hplain⟩
  · rintro ⟨r, ⟨sockets, os, hrun⟩, rfl⟩
    refine ⟨sockets, os, ?_⟩
    induction hrun with
    | refl => exact .refl
    | tail _ hstep ih => exact ih.tail hstep.plain

end Worker
end Http3Bench.Server
