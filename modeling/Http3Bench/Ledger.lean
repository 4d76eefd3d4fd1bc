import Http3Bench.ConnFrame
import Http3Bench.Entries

/-!
# The ledger of operations

The operations a worker has begun are on its connections, in its retry queue and on its agenda. A
move closes the operations it says it closes and opens the ones it says it opens; every other
operation is still somewhere.
-/

namespace Http3Bench

variable {P : Platform}

def ConnEvent.ops (i : ℕ) : ConnEvent → Multiset Op
  | .response kind _ _ => {kind.op i}
  | _ => 0

def Task.ops : Task → Multiset Op
  | .event i ev => ev.ops i
  | .request i kind _ => {kind.op i}
  | .newUp j | .settle j | .job j | .dialing j | .lost j _ => {j.op}
  | .done i _ _ n | .ticket i n => {.echo i n}
  | _ => 0

def agendaOps (todo : List Task) : Multiset Op := (todo.map Task.ops).sum

def Worker.retryOps (w : Worker P) : Multiset Op := (w.retries.map (fun r => r.2.op) : List Op)

def Mach.ops (x : Mach P) : Multiset Op :=
  x.w.total (fun i c => c.ops i) + x.w.retryOps + agendaOps x.todo

@[simp] theorem agendaOps_nil : agendaOps [] = 0 := rfl

@[simp] theorem agendaOps_cons (t : Task) (st : List Task) :
    agendaOps (t :: st) = t.ops + agendaOps st := by simp [agendaOps]

@[simp] theorem agendaOps_append (s t : List Task) :
    agendaOps (s ++ t) = agendaOps s + agendaOps t := by simp [agendaOps]

abbrev Streams := AList (fun _ : ℕ => Req)

/-- The operations of streams and of queued requests. -/
def streamOps (s : Streams) (i : ℕ) : Multiset Op :=
  (s.entries.map (fun e => ReqKind.op i e.2.kind) : List Op)

def queueOps (q : List (ReqKind × Body)) (i : ℕ) : Multiset Op :=
  (q.map (fun r => ReqKind.op i r.1) : List Op)

theorem streamOps_insert (s : Streams) (i sid : ℕ) (r : Req) :
    streamOps (s.insert sid r) i +
      ((s.lookup sid).toList.map (fun r => ReqKind.op i r.kind) : List Op) =
      r.kind.op i ::ₘ streamOps s i :=
  map_entries_insert (fun e : Sigma (fun _ : ℕ => Req) => ReqKind.op i e.2.kind) sid r s

theorem streamOps_erase (s : Streams) (i sid : ℕ) :
    streamOps (s.erase sid) i +
      ((s.lookup sid).toList.map (fun r => ReqKind.op i r.kind) : List Op) = streamOps s i :=
  map_entries_erase (fun e : Sigma (fun _ : ℕ => Req) => ReqKind.op i e.2.kind) sid s

namespace Conn

def dialOps (c : Conn P) : Multiset Op := (c.dial.toList.map DialJob.op : List Op)

theorem entryOps_eq (c : Conn P) (i : ℕ) :
    c.entryOps i = streamOps c.streams i + queueOps c.queued i := by
  simp only [entryOps, requests, streamOps, queueOps, List.map_append, List.map_map,
    ← Multiset.coe_add]
  rfl

theorem ops_eq (c : Conn P) (i : ℕ) :
    c.ops i = c.dialOps + (streamOps c.streams i + queueOps c.queued i) := by
  rw [ops, entryOps_eq]
  rfl

variable {c c' : Conn P} {i : ℕ}

theorem kind_readHeaders (list : List Header) (r : Req) : (r.readHeaders list).kind = r.kind := by
  unfold Req.readHeaders
  induction list generalizing r with
  | nil => rfl
  | cons h rest ih =>
    rw [List.foldl_cons, ih]
    split <;> rfl

theorem kind_readBodies (check : Bool) (reads : List Body) (r : Req) :
    (reads.foldl (Req.readBody check) r).kind = r.kind := by
  induction reads generalizing r with
  | nil => rfl
  | cons b rest ih => rw [List.foldl_cons, ih, Req.readBody]

theorem streamOps_updateReq (c : Conn P) (i sid : ℕ) {f : Req → Req} (hf : ∀ r, (f r).kind = r.kind) :
    streamOps (c.updateReq sid f).streams i = streamOps c.streams i := by
  unfold updateReq
  cases h : c.streams.lookup sid with
  | none => rfl
  | some r =>
    have hs := streamOps_insert c.streams i sid (f r)
    simp only [h, Option.toList_some, List.map_cons, List.map_nil, hf] at hs
    rw [Multiset.coe_singleton, ← Multiset.singleton_add, add_comm] at hs
    exact add_left_cancel hs

/-- The event loop hands a request on exactly when it takes it off its stream. -/
theorem streamOps_onEvent (check : Bool) (c : Conn P) (i : ℕ) (ev : ℕ × H3Event) :
    streamOps (c.onEvent check ev).1.streams i + ((c.onEvent check ev).2.map (ConnEvent.ops i)).sum =
      streamOps c.streams i := by
  obtain ⟨sid, ev⟩ := ev
  cases ev with
  | headers list =>
    simpa [onEvent] using streamOps_updateReq c i sid (kind_readHeaders list)
  | data reads =>
    simpa [onEvent] using streamOps_updateReq c i sid (kind_readBodies check reads)
  | finished =>
    have hs := streamOps_erase c.streams i sid
    simp only [onEvent]
    cases h : c.streams.lookup sid with
    | none => simp
    | some r => simpa [h, ConnEvent.ops] using hs
  | reset code =>
    have hs := streamOps_erase c.streams i sid
    simp only [onEvent]
    cases h : c.streams.lookup sid with
    | none => simp
    | some r => simpa [h, ConnEvent.ops] using hs
  | goAway => simp [onEvent]
  | priorityUpdate => simp [onEvent]

theorem streamOps_onEvents (check : Bool) (c : Conn P) (i : ℕ) (evs : List (ℕ × H3Event)) :
    streamOps (c.onEvents check evs).1.streams i +
      ((c.onEvents check evs).2.map (ConnEvent.ops i)).sum = streamOps c.streams i := by
  induction evs generalizing c with
  | nil => simp [onEvents]
  | cons ev rest ih =>
    simp only [onEvents, List.map_append, List.sum_append]
    rw [add_comm (List.sum _) (List.sum _), ← add_assoc, ih, streamOps_onEvent]

/-- `fail_streams` hands every request on. -/
theorem ops_shut (c : Conn P) (i : ℕ) (reason : String) :
    ((c.shut reason).2.map (ConnEvent.ops i)).sum =
      streamOps c.streams i + queueOps c.queued i := by
  have hsum : ∀ l : List Op, (l.map (fun o => ({o} : Multiset Op))).sum = (l : Multiset Op) := by
    intro l
    induction l with
    | nil => rfl
    | cons o l ih => simp [ih]
  have hq : ∀ l : List (ReqKind × Body), ((l.map (fun r => ConnEvent.response r.1
      (.error ("connection closed: " ++ reason)) .closed)).map (ConnEvent.ops i)).sum =
      ((l.map (fun r => r.1.op i) : List Op) : Multiset Op) := by
    intro l
    rw [← hsum, List.map_map, List.map_map]
    rfl
  have hs : ∀ l : List (Sigma fun _ : ℕ => Req), ((l.map (fun e => ConnEvent.response e.2.kind
      (.error ("connection closed: " ++ reason)) .closed)).map (ConnEvent.ops i)).sum =
      ((l.map (fun e => e.2.kind.op i) : List Op) : Multiset Op) := by
    intro l
    rw [← hsum, List.map_map, List.map_map]
    rfl
  have hp : (((P.drainOrder c.streams.entries).map (fun e => e.2.kind.op i) : List Op) :
      Multiset Op) = streamOps c.streams i :=
    Multiset.coe_eq_coe.mpr ((P.drainOrder_perm _).map _)
  simp only [shut, failStreams, List.map_append, List.sum_append, hq, hs, hp]
  simp [ConnEvent.ops, queueOps, add_comm]

theorem ops_polled (check : Bool) (h : P.H3) (c : Conn P) (i : ℕ) :
    streamOps (c.resumed check h).streams i + ((c.polled check h).2.map (ConnEvent.ops i)).sum =
      streamOps c.streams i :=
  streamOps_onEvents check _ i _

theorem queued_resumed (check : Bool) (h : P.H3) (c : Conn P) :
    (c.resumed check h).queued = c.queued :=
  queued_onEvents check _ _

theorem ops_shut_conn (c : Conn P) (i : ℕ) (reason : String) : (c.shut reason).1.ops i = c.dialOps := by
  simp [ops_eq, shut, failStreams, streamOps, queueOps, dialOps]

theorem dialOps_resumed (check : Bool) (h : P.H3) (c : Conn P) :
    (c.resumed check h).dialOps = c.dialOps := by
  unfold dialOps
  rw [(frame_resumed check h c).dial]

end Conn

section

variable {check : Bool} {c c' c₁ : Conn P} {h : P.H3} {evs : List ConnEvent}

theorem Setup.ops (hs : Setup c c₁ h evs) (i : ℕ) : (evs.map (ConnEvent.ops i)).sum = 0 := by
  cases hs with
  | old => rfl
  | new => split <;> rfl

theorem Setup.conn_ops (hs : Setup c c₁ h evs) (i : ℕ) : c₁.ops i = c.ops i := by
  cases hs <;> rfl

/-- `process_conn` hands on what it takes off a connection, and nothing else. -/
theorem Read.ops (hr : Read check c c' evs) (i : ℕ) :
    c'.ops i + (evs.map (ConnEvent.ops i)).sum = c.ops i := by
  cases hr with
  | shut reason =>
    rw [Conn.ops_shut, Conn.ops_shut_conn, Conn.ops_eq c]
    rfl
  | failed q reason =>
    simp only [List.map_cons, List.map_nil, List.sum_cons, List.sum_nil, ConnEvent.ops, add_zero]
    rfl
  | waiting => simp
  | @polled c₁ h evs hs =>
    have hp := Conn.ops_polled check h c₁ i
    rw [List.map_append, List.sum_append, hs.ops, ← hs.conn_ops i, Conn.ops_eq, Conn.ops_eq,
      Conn.queued_resumed, Conn.dialOps_resumed, ← hp]
    abel
  | @polledShut c₁ h evs reason hs =>
    have hp := Conn.ops_polled check h c₁ i
    rw [List.map_append, List.sum_append, List.map_append, List.sum_append, hs.ops, Conn.ops_shut,
      Conn.ops_shut_conn, ← hs.conn_ops i, Conn.ops_eq c₁, Conn.queued_resumed,
      Conn.dialOps_resumed, ← hp]
    abel

end

theorem Sent.ops_left (s : Sent P) (i : ℕ) : s.left.ops i = s.conn.ops i := by
  unfold Sent.left
  split <;> rfl

namespace Conn

theorem ops_park (c : Conn P) (i stream : ℕ) (body : Body) (off : ℕ) :
    (c.park stream body off).ops i = c.ops i := by
  unfold park
  split <;> rfl

theorem streams_park (c : Conn P) (stream : ℕ) (body : Body) (off : ℕ) :
    (c.park stream body off).streams = c.streams := by
  unfold park
  split <;> rfl

theorem ops_record (c : Conn P) (i stream : ℕ) (kind : ReqKind) (body : Body) :
    (c.record stream kind body).conn.ops i +
      ((c.streams.lookup stream).toList.map (fun r => ReqKind.op i r.kind) : List Op) =
      c.ops i + {kind.op i} := by
  have hs := streamOps_insert c.streams i stream
    { kind, expect := if kind = .dial then [] else body }
  rw [← Multiset.singleton_add] at hs
  rw [ops_eq, ops_eq]
  simp only [record, dialOps]
  grind

end Conn

theorem TrySend.overwrites {headers : List Header} {kind : ReqKind} {body : Body} {c : Conn P}
    {s : Sent P} (hs : TrySend headers kind body c s) (hok : s.result = .ok ()) :
    ∃ h sid h' q', c.h3 = some h ∧ P.sendRequest headers body.isEmpty h c.q = (.ok sid, h', q') ∧
      c.overwrites headers body = c.streams.lookup sid := by
  cases hs with
  | @sent h h' h'' q' q'' sid off hh ha =>
    exact ⟨h, sid, h', q', hh, ha, by simp [Conn.overwrites, hh, ha]⟩
  | _ => cases hok

/-- A request is on its stream, still in hand, or refused. -/
theorem TrySend.ops {headers : List Header} {kind : ReqKind} {body : Body} {c : Conn P}
    {s : Sent P} (hs : TrySend headers kind body c s) (i : ℕ) :
    s.left.ops i + agendaOps (sendTasks i kind body s.result) +
        sendOuts i kind (c.overwrites headers body) s.result =
      c.ops i + {kind.op i} := by
  rw [Sent.ops_left]
  have hfail : ∀ e, agendaOps (sendTasks i kind body (.error (.failed e))) +
      sendOuts i kind (c.overwrites headers body) (.error (.failed e)) = {kind.op i} := by
    intro e
    cases kind <;> simp [sendTasks, sendOuts, Task.ops, ReqKind.op]
  cases hs with
  | noH3 =>
    rw [add_assoc, hfail]
  | blocked hh ha =>
    simp only [sendTasks, sendOuts, agendaOps_cons, agendaOps_nil, Task.ops, add_zero]
    rfl
  | refused hh ha =>
    simp only [Conn.refuse]
    rw [add_assoc, hfail]
    rfl
  | bodyRefused hh ha =>
    simp only [Conn.refuse]
    rw [add_assoc, hfail]
    rfl
  | @sent h h' h'' q' q'' sid off hh ha =>
    have hr := Conn.ops_record (Conn.park { c with h3 := some h'', q := q'' } sid body off) i sid
      kind body
    rw [Conn.ops_park, Conn.streams_park] at hr
    have ht : agendaOps (sendTasks i kind body (.ok ())) = 0 := by
      simp only [sendTasks]
      split <;> simp [Task.ops]
    have ho : c.overwrites headers body = c.streams.lookup sid := by
      simp only [Conn.overwrites, hh, ha]
    rw [ho, show (Conn.record _ _ kind body).result = .ok () from rfl, ht, add_zero]
    exact hr

namespace Mach

variable {w w' : Worker P} {st st' : List Task} {ins outs : Multiset Op} {i : ℕ} {c c' : Conn P}

theorem ops_of_total (ht : w'.total (fun i c => c.ops i) = w.total (fun i c => c.ops i))
    (h : w'.retryOps + agendaOps st' + outs = w.retryOps + agendaOps st + ins) :
    (⟨w', st'⟩ : Mach P).ops + outs = (⟨w, st⟩ : Mach P).ops + ins := by
  unfold ops
  simp only [ht, add_assoc] at h ⊢
  rw [h]

theorem ops_same (hs : w'.slots = w.slots) (hr : w'.retries = w.retries)
    (h : agendaOps st' + outs = agendaOps st + ins) :
    (⟨w', st'⟩ : Mach P).ops + outs = (⟨w, st⟩ : Mach P).ops + ins := by
  refine ops_of_total (Worker.total_of_slots_eq hs) ?_
  unfold Worker.retryOps
  rw [hr, add_assoc, h, ← add_assoc]

/-- A move on one slot: what the slot held, and what it holds now. -/
theorem ops_set {s : Option (Conn P)} (hi : i < w.slots.length) (hs : w'.slots = w.slots.set i s)
    (hr : w'.retries = w.retries)
    (h : s.elim 0 (fun c => c.ops i) + agendaOps st' + outs =
      w.slotOps i + agendaOps st + ins) :
    (⟨w', st'⟩ : Mach P).ops + outs = (⟨w, st⟩ : Mach P).ops + ins := by
  have ht := Worker.total_set (f := fun i (c : Conn P) => c.ops i) hs hi
  unfold ops Worker.retryOps
  rw [hr]
  refine add_left_cancel (a := w.slotOps i) ?_
  unfold Worker.slotOps at h ⊢
  grind

theorem ops_put (hc : w.conn i = some c) (hs : w'.slots = w.slots.set i (some c'))
    (hr : w'.retries = w.retries)
    (h : c'.ops i + agendaOps st' + outs = c.ops i + agendaOps st + ins) :
    (⟨w', st'⟩ : Mach P).ops + outs = (⟨w, st⟩ : Mach P).ops + ins :=
  ops_set (Worker.lt_of_conn hc) hs hr (by simpa [Worker.slotOps, hc] using h)

end Mach

theorem agendaOps_events (i : ℕ) (evs : List ConnEvent) :
    agendaOps (events i evs) = (evs.map (ConnEvent.ops i)).sum := by
  induction evs with
  | nil => rfl
  | cons ev rest ih =>
    rw [events, List.map_cons, agendaOps_cons, ← events, ih, List.map_cons, List.sum_cons]
    rfl

theorem agendaOps_mkJobs (start : Instant) (purpose : Purpose) (serial : ℕ) (slots : List (Option ℕ)) :
    agendaOps ((mkJobs start purpose serial slots).map Task.job) =
      ((mkJobs start purpose serial slots).map DialJob.op : List Op) := by
  induction slots generalizing serial with
  | nil => rfl
  | cons slot rest ih =>
    simp only [mkJobs, List.map_cons, agendaOps_cons, ih, Task.ops]
    rfl

theorem ops_mkJobs_redial (start : Instant) (serial : ℕ) (is : List ℕ) :
    (mkJobs start .redialRate serial (is.map some)).map DialJob.op = is.map Op.redial := by
  induction is generalizing serial with
  | nil => rfl
  | cons i rest ih => simp [mkJobs, ih, DialJob.op]

theorem ops_mkJobs_new (start : Instant) (serial n : ℕ) :
    (mkJobs start .new serial (List.replicate n none)).map DialJob.op =
      (List.range n).map (fun k => Op.new (serial + k)) := by
  induction n generalizing serial with
  | zero => rfl
  | succ n ih =>
    rw [List.replicate_succ, mkJobs, List.map_cons, ih, List.range_succ_eq_map, List.map_cons,
      List.map_map]
    simp [DialJob.op, Function.comp_def, Nat.add_assoc, Nat.add_comm 1]

namespace Conn

theorem ops_enqueue (c : Conn P) (i : ℕ) (r : ReqKind × Body) :
    ({ c with queued := c.queued ++ [r] } : Conn P).ops i = c.ops i + {r.1.op i} := by
  rw [ops_eq, ops_eq]
  simp only [dialOps, queueOps, List.map_append, List.map_cons, List.map_nil, ← Multiset.coe_add,
    Multiset.coe_singleton]
  abel

theorem ops_requeue (c : Conn P) (i : ℕ) (r : ReqKind × Body) (q : List (ReqKind × Body)) :
    ({ c with queued := r :: q } : Conn P).ops i =
      ({ c with queued := q } : Conn P).ops i + {r.1.op i} := by
  rw [ops_eq, ops_eq]
  simp only [dialOps, queueOps, List.map_cons, ← Multiset.cons_coe, ← Multiset.singleton_add]
  abel

theorem ops_up (c : Conn P) (i : ℕ) : c.up.ops i + c.dialOps = c.ops i := by
  rw [ops_eq, ops_eq]
  simp [up, dialOps, add_comm]

theorem ops_broke (c : Conn P) (i : ℕ) : c.broke.ops i = 0 := by
  simp [ops_eq, broke, dialOps, streamOps, queueOps]

theorem ops_sendLoop (c : Conn P) (sent : Bool) (answers : List SockSend) (i : ℕ) :
    (c.sendLoop sent answers).1.ops i = c.ops i := by
  obtain ⟨q, e, heq, -⟩ := sendLoop_cases c sent answers
  rw [heq]
  rfl

theorem ops_sentAt (r : Conn P × Bool × ℕ) (now : Instant) (i : ℕ) :
    (sentAt r now).rearm.ops i = r.1.ops i := by
  unfold sentAt
  split <;> rfl

theorem dialOps_some {c : Conn P} {j : DialJob} (h : c.dial = some j) : c.dialOps = {j.op} := by
  simp [dialOps, h]

end Conn

theorem Dialed.ops_conn (d : Dialed P) (i : ℕ) (j : DialJob) (timeout : Duration) (now : Instant)
    (uid : ℕ) : (d.conn i j timeout now uid).ops i = {({ j with slot := some i } : DialJob).op} := by
  simp [Conn.ops_eq, Dialed.conn, Conn.dialOps, streamOps, queueOps]

/-- The slot a dial takes, and the worker that has put a connection in it. -/
theorem Mach.ops_install {w w' : Worker P} {st st' : List Task} {ins outs : Multiset Op}
    {slot : Option ℕ} {c : Conn P} (hlt : ∀ i, slot = some i → i < w.slots.length)
    (hidx : (w.takeSlot slot).1 < (w.takeSlot slot).2.slots.length)
    (hs : w'.slots = (w.takeSlot slot).2.slots.set (w.takeSlot slot).1 (some c))
    (hr : w'.retries = w.retries)
    (h : c.ops (w.takeSlot slot).1 + agendaOps st' + outs =
      w.slotOps (w.takeSlot slot).1 + agendaOps st + ins) :
    (⟨w', st'⟩ : Mach P).ops + outs = (⟨w, st⟩ : Mach P).ops + ins := by
  cases slot with
  | some i =>
    exact ops_set (hlt i rfl) (hs.trans (List.set_set ..)) hr h
  | none =>
    cases hf : w.free with
    | cons i rest =>
      simp only [Worker.takeSlot, Worker.allocSlot, hf] at hs h hidx
      exact ops_set hidx hs hr h
    | nil =>
      simp only [Worker.takeSlot, Worker.allocSlot, hf] at hs h
      rw [List.set_append_right _ _ (Nat.le_refl _), Nat.sub_self, List.set_cons_zero] at hs
      have hnone : w.slotOps w.slots.length = 0 := by simp [Worker.slotOps, Worker.conn]
      rw [hnone, zero_add] at h
      unfold ops Worker.retryOps
      simp only [Worker.total_append hs, hr, Option.elim_some]
      grind

theorem Move.ledger {x x' : Mach P} {ins outs : Multiset Op} (m : Move x ins outs x') :
    x'.ops + outs = x.ops + ins := by
  cases m with
  | enqueue hc hk =>
    refine Mach.ops_put hc rfl rfl ?_
    simp only [Conn.ops_enqueue, agendaOps_cons, Task.ops]
    abel
  | requeue hc hk =>
    refine Mach.ops_put hc rfl rfl ?_
    simp only [Conn.ops_requeue, agendaOps_cons, Task.ops]
    abel
  | @dequeue w st i kind body c rest hc hq =>
    refine Mach.ops_put hc rfl rfl ?_
    have h := c.ops_requeue i (kind, body) rest
    rw [← hq] at h
    simp only [agendaOps_cons, Task.ops]
    rw [show c.ops i = _ from h]
    abel
  | @send w st i kind body c hc =>
    refine Mach.ops_put hc (by rw [Worker.afterSend_eq]) (by rw [Worker.afterSend_eq]) ?_
    have h := (trySend_cases (w.headersFor kind) kind body c).ops i
    simp only [agendaOps_append, agendaOps_cons, Task.ops, add_zero]
    grind
  | @rateEvent w st i r cause =>
    cases hc : w.conn i with
    | none =>
      refine Mach.ops_same rfl rfl ?_
      simp only [agendaOps_cons, Task.ops, ConnEvent.ops, ReqKind.op, add_zero]
      exact add_comm _ _
    | some c =>
      refine Mach.ops_put hc rfl rfl ?_
      simp only [agendaOps_cons, Task.ops, ConnEvent.ops, ReqKind.op, add_zero]
      rw [add_assoc, add_comm (agendaOps st)]
      rfl
  | @event w st i ev h₁ h₂ =>
    refine Mach.ops_same rfl rfl ?_
    match ev with
    | .established =>
      simp only [eventTasks, eventOuts, eventIns, List.singleton_append, agendaOps_cons, Task.ops,
        ConnEvent.ops, ReqKind.op]
      abel
    | .response .dial (.ok n) cause =>
      simp only [eventTasks, eventOuts, eventIns, List.singleton_append, agendaOps_cons, Task.ops,
        ConnEvent.ops, ReqKind.op]
      abel
    | .response .dial (.error e) cause =>
      simp only [eventTasks, eventOuts, eventIns, List.singleton_append, agendaOps_cons, Task.ops,
        ConnEvent.ops, ReqKind.op]
      abel
    | .response (.echo s n) r cause =>
      simp only [eventTasks, eventOuts, eventIns, List.singleton_append, agendaOps_cons, Task.ops,
        ConnEvent.ops, ReqKind.op]
    | .response .rate r cause => exact absurd rfl (h₁ r cause)
    | .closed reason => exact absurd rfl (h₂ reason)
  | @closedOther w st i reason h =>
    refine Mach.ops_same rfl rfl ?_
    have hnil : agendaOps (closedTasks i reason (w.conn i)) = 0 := by
      unfold closedTasks
      split
      · split <;> simp [Task.ops]
      · rfl
    simp [hnil, Task.ops, ConnEvent.ops]
  | closedReady hc hs =>
    refine Mach.ops_put hc rfl rfl ?_
    simp only [agendaOps_cons, Task.ops, ConnEvent.ops, zero_add]
    rfl
  | @upNew w st i c j hc hd hj =>
    refine Mach.ops_put hc rfl rfl ?_
    rw [← Conn.ops_up c, Conn.dialOps_some hd]
    simp only [agendaOps_cons, Task.ops]
    abel
  | @upEcho w st i c j s n e body hc hd hj hp =>
    refine Mach.ops_put hc rfl rfl ?_
    rw [← Conn.ops_up c, Conn.dialOps_some hd]
    simp only [agendaOps_cons, Task.ops, ReqKind.op]
    abel
  | @upEchoLate w st i c j s n hc hd hj hp =>
    refine Mach.ops_put hc rfl rfl ?_
    rw [← Conn.ops_up c, Conn.dialOps_some hd]
    simp only [agendaOps_cons, Task.ops]
    abel
  | @upRate w st i c j hc hd hj =>
    refine Mach.ops_put hc rfl rfl ?_
    rw [← Conn.ops_up c, Conn.dialOps_some hd]
    simp only [agendaOps_cons, Task.ops]
    abel
  | @downNew w st i err c j hc hd hj =>
    refine Mach.ops_set (Worker.lt_of_conn hc) (s := none) rfl rfl ?_
    have hop : ({ j with slot := none } : DialJob).op = j.op := by simp [DialJob.op, hj]
    simp only [Worker.slotOps, hc, Option.elim_some, Option.elim_none, agendaOps_cons, Task.ops, hop]
    rw [Conn.ops_eq, Conn.dialOps_some hd, Conn.entryOps_eq]
    abel
  | @downRedial w st i err c j hc hd hj =>
    refine Mach.ops_put hc rfl rfl ?_
    rw [Conn.ops_broke, Conn.ops_eq, Conn.dialOps_some hd, Conn.entryOps_eq]
    simp only [agendaOps_cons, Task.ops]
    abel
  | retry ha =>
    refine Mach.ops_of_total (Worker.total_of_slots_eq rfl) ?_
    simp only [Worker.retry, Worker.retryOps, List.map_append, List.map_cons, List.map_nil,
      ← Multiset.coe_add, Multiset.coe_singleton, agendaOps_cons, Task.ops, add_zero, add_assoc]
    rfl
  | @registerFailed w st j err o hlt =>
    cases hslot : j.slot with
    | some i =>
      refine Mach.ops_set (hlt i hslot) (s := none) rfl rfl ?_
      simp only [agendaOps_cons, Task.ops, Option.elim_some, Option.elim_none]
      abel
    | none =>
      cases hf : w.free with
      | cons i rest =>
        simp only [Worker.takeSlot, Worker.allocSlot, hf]
        exact Mach.ops_same rfl rfl rfl
      | nil =>
        simp only [Worker.takeSlot, Worker.allocSlot, hf]
        exact Mach.ops_of_total ((Worker.total_append (s := none) rfl).trans (add_zero _)) rfl
  | @seated w st j d o₁ o₂ t hlt hidx =>
    refine Mach.ops_install hlt hidx rfl (by simp [Worker.install, Worker.put, Worker.wait]) ?_
    rw [Dialed.ops_conn]
    simp only [agendaOps_cons, Task.ops, ← Multiset.singleton_add]
    abel
  | closing hc => exact Mach.ops_put hc rfl rfl (by simp only [agendaOps_cons, Task.ops, zero_add]; rfl)
  | @flushed w st i c r as o t hc hr =>
    subst hr
    rw [Worker.flushed_eq (by exact Worker.lt_of_conn hc)]
    refine Mach.ops_put hc rfl rfl ?_
    have hnil : ∀ b : Bool, agendaOps (if b then [Task.read i] else []) = 0 := by
      intro b
      cases b <;> rfl
    rw [Conn.ops_sentAt, Conn.ops_sendLoop, agendaOps_append, hnil, agendaOps_cons]
    rfl
  | @read w st i c hc =>
    refine Mach.ops_put hc rfl rfl ?_
    have h := (read_processConn w.cfg.check c).ops i
    rw [agendaOps_append, agendaOps_events, agendaOps_cons, agendaOps_cons, ← h]
    simp only [Task.ops, zero_add, add_zero, ← add_assoc]
    rfl
  | received o t hc => exact Mach.ops_put hc rfl rfl rfl
  | timerRearmed ht hc hs =>
    have hlt := Worker.lt_of_conn hc
    rw [Worker.schedule_eq (Worker.conn_set rfl hlt _ |>.trans (if_pos rfl))]
    exact Mach.ops_put hc (List.set_set ..) rfl rfl
  | timerDown ht hc hs => exact Mach.ops_put hc rfl rfl rfl
  | timerFired ht hc hs => exact Mach.ops_put hc (List.set_set ..) rfl rfl
  | retryDue hr =>
    refine Mach.ops_of_total (Worker.total_of_slots_eq rfl) ?_
    simp only [Worker.retryOps, hr, List.map_cons, ← Multiset.cons_coe, ← Multiset.singleton_add,
      agendaOps_cons, agendaOps_nil, Task.ops, add_zero]
    exact add_comm _ _
  | keepalive hc => exact Mach.ops_put hc rfl rfl rfl
  | rateStart =>
    simp only [Mach.ops, Worker.retryOps]
    rw [Worker.total_map rfl]
    · rfl
    · intro i c
      unfold Conn.resetInFlight
      split <;> rfl
  | posted hc => exact Mach.ops_put hc rfl rfl rfl
  | startRate o t hrx =>
    refine Mach.ops_same rfl rfl ?_
    rw [agendaOps_append, agendaOps_mkJobs, ops_mkJobs_redial]
    simp [Task.ops]
  | startDials now n hp hn =>
    refine Mach.ops_same rfl rfl ?_
    rw [agendaOps_mkJobs, ops_mkJobs_new]
    simp
  | _ =>
    refine Mach.ops_same rfl rfl ?_
    simp only [agendaOps_cons, agendaOps_nil, Task.ops, DialJob.op, ReqKind.op, Option.getD_some, *]
    try abel

end Http3Bench
