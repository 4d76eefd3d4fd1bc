import Http3Bench.Streams

/-!
# What is handed to quiche

`Platform.recorded` is a platform that writes down, in the HTTP/3 connection itself, every call that
hands it something of a message, with its answer. What the client has handed over on a connection is
then read off the connection it goes on with, whatever it keeps about it: the marks of its life are
those of the calls. Nothing else changes by it (`Thread.reach_iff_recorded`).
-/

namespace Http3Bench

/-- `send_request`, `send_response` or `send_body`, with what quiche answered. -/
inductive SendCall
  | request (headers : List Header) (fin : Bool) (res : Except H3Error ℕ)
  | response (stream : ℕ) (headers : List Header) (fin : Bool) (res : Except H3Error Unit)
  | body (stream : ℕ) (bytes : Body) (fin : Bool) (res : Except H3Error ℕ)
  deriving DecidableEq

/-- What quiche has made of a call: `Ok(n)` takes the first `n` bytes that are offered. -/
def SendCall.marks : SendCall → List Outbox.Mark
  | .request _ _ (.ok stream) => [.headed stream]
  | .request _ _ (.error _) => []
  | .response stream _ _ (.ok ()) => [.headed stream]
  | .response _ _ _ (.error .streamBlocked) => []
  | .response stream _ _ (.error _) => [.refused stream]
  | .body stream bytes _ (.ok n) => [.took stream (bytes.take n)]
  | .body _ _ _ (.error .done) => []
  | .body stream _ _ (.error _) => [.refused stream]

/-- The stream whose head went out at this mark. -/
def Outbox.Mark.heads? : Outbox.Mark → Option ℕ
  | .headed stream => some stream
  | _ => none

/-- The marks of what quiche answers. -/
def Outbox.Mark.answers : Outbox.Mark → Bool
  | .headed _ | .took _ _ | .refused _ => true
  | _ => false

namespace SendCall

/-- The stream a call is on. -/
def stream? : SendCall → Option ℕ
  | .request _ _ res => res.toOption
  | .response stream _ _ _ | .body stream _ _ _ => some stream

/-- The headers quiche has accepted with a call. -/
def heads : SendCall → List (List Header)
  | .request headers _ (.ok _) | .response _ headers _ (.ok _) => [headers]
  | _ => []

/-- The bytes quiche has accepted with a call. -/
def bytes : SendCall → Body
  | .body _ bytes _ (.ok n) => bytes.take n
  | _ => []

/-- Quiche will have nothing more of the message. -/
def refused (call : SendCall) : Bool := call.marks.any (fun m => m matches .refused _)

/-- Quiche has accepted the end of the message. -/
def ends : SendCall → Bool
  | .request _ fin (.ok _) | .response _ _ fin (.ok _) => fin
  | .body _ bytes fin (.ok n) => fin && bytes.length ≤ n
  | _ => false

/-- The calls on one stream. -/
def on (stream : ℕ) (calls : List SendCall) : List SendCall :=
  calls.filter (fun call => call.stream? = some stream)

/-- The streams headers were accepted on. -/
def headed (calls : List SendCall) : List ℕ :=
  (calls.filter (fun call => call.heads ≠ [])).filterMap stream?

/-- The headers accepted with some calls. -/
def headsOf (calls : List SendCall) : List (List Header) := calls.flatMap heads

/-- The bytes accepted with some calls, in their order. -/
def bytesOf (calls : List SendCall) : Body := calls.flatMap bytes

@[simp] theorem headsOf_append (cs cs' : List SendCall) :
    headsOf (cs ++ cs') = headsOf cs ++ headsOf cs' := List.flatMap_append

@[simp] theorem bytesOf_append (cs cs' : List SendCall) :
    bytesOf (cs ++ cs') = bytesOf cs ++ bytesOf cs' := List.flatMap_append

@[simp] theorem headsOf_singleton (call : SendCall) : headsOf [call] = call.heads := by
  simp [headsOf]

@[simp] theorem bytesOf_singleton (call : SendCall) : bytesOf [call] = call.bytes := by
  simp [bytesOf]

@[simp] theorem on_append (stream : ℕ) (cs cs' : List SendCall) :
    on stream (cs ++ cs') = on stream cs ++ on stream cs' := List.filter_append ..

/-- All marks of calls are answers. -/
theorem filter_marks (cs : List SendCall) :
    (cs.flatMap marks).filter Outbox.Mark.answers = cs.flatMap marks := by
  induction cs with
  | nil => rfl
  | cons call cs ih =>
    have hcall : call.marks.filter Outbox.Mark.answers = call.marks := by
      cases call with
      | request headers fin res => cases res <;> rfl
      | response stream headers fin res =>
        cases res with
        | ok u => rfl
        | error e => cases e <;> rfl
      | body stream bytes fin res =>
        cases res with
        | ok n => rfl
        | error e => cases e <;> rfl
    rw [List.flatMap_cons, List.filter_append, hcall, ih]

/-- What the transport took of a message is what was accepted on its stream. -/
theorem taken_marks (stream : ℕ) (cs : List SendCall) :
    Outbox.taken stream (cs.flatMap marks) = bytesOf (on stream cs) := by
  induction cs with
  | nil => rfl
  | cons call cs ih =>
    have hcall : Outbox.taken stream call.marks =
        if call.stream? = some stream then call.bytes else [] := by
      cases call with
      | request headers fin res => cases res <;> simp [marks, Outbox.taken, Outbox.Mark.bytes, bytes]
      | response k headers fin res =>
        cases res with
        | ok u => simp [marks, Outbox.taken, Outbox.Mark.bytes, bytes]
        | error e => cases e <;> simp [marks, Outbox.taken, Outbox.Mark.bytes, bytes]
      | body k b fin res =>
        cases res with
        | ok n => simp [marks, Outbox.taken, Outbox.Mark.bytes, bytes, stream?]
        | error e => cases e <;> simp [marks, Outbox.taken, Outbox.Mark.bytes, bytes]
    have hcons : on stream (call :: cs) =
        (if call.stream? = some stream then [call] else []) ++ on stream cs := by
      unfold on
      rw [List.filter_cons]
      by_cases hs : call.stream? = some stream <;> simp [hs]
    rw [List.flatMap_cons, Outbox.taken_append, hcall, ih, hcons, bytesOf_append]
    by_cases hs : call.stream? = some stream
    · rw [if_pos hs, if_pos hs, bytesOf_singleton]
    · rw [if_neg hs, if_neg hs]
      rfl

/-- The heads that went out are those of the streams headers were accepted on. -/
theorem heads_marks (cs : List SendCall) :
    (cs.flatMap marks).filterMap Outbox.Mark.heads? = headed cs := by
  induction cs with
  | nil => rfl
  | cons call cs ih =>
    have hcall : call.marks.filterMap Outbox.Mark.heads? =
        if call.heads = [] then [] else call.stream?.toList := by
      cases call with
      | request headers fin res => cases res <;> rfl
      | response k headers fin res =>
        cases res with
        | ok u => rfl
        | error e => cases e <;> rfl
      | body k b fin res =>
        cases res with
        | ok n => rfl
        | error e => cases e <;> rfl
    rw [List.flatMap_cons, List.filterMap_append, hcall, ih]
    unfold headed
    rw [List.filter_cons]
    by_cases hh : call.heads = []
    · rw [if_pos hh, if_neg (by simpa using hh)]
      rfl
    · rw [if_neg hh, if_pos (by simpa using hh), List.filterMap_cons]
      cases call.stream? <;> rfl

end SendCall

/-- Only answers take bytes. -/
theorem Outbox.taken_answers (key : ℕ) (tr : List Outbox.Mark) :
    Outbox.taken key (tr.filter Outbox.Mark.answers) = Outbox.taken key tr := by
  induction tr with
  | nil => rfl
  | cons m tr ih =>
    have hcons : ∀ l, Outbox.taken key (m :: l) = m.bytes key ++ Outbox.taken key l :=
      fun l => List.flatMap_cons
    rw [List.filter_cons, hcons, ← ih]
    by_cases hm : m.answers
    · rw [if_pos hm, hcons]
    · rw [if_neg hm]
      cases m with
      | took k b => exact absurd rfl hm
      | _ => rfl

/-- Only answers send heads. -/
theorem Outbox.heads_answers (tr : List Outbox.Mark) :
    (tr.filter Outbox.Mark.answers).filterMap Outbox.Mark.heads? =
      tr.filterMap Outbox.Mark.heads? := by
  rw [List.filterMap_filter]
  congr 1
  funext m
  cases m <;> rfl

/-- A request of the client opens its stream with its head. -/
theorem keys_outbox (tr : List StreamMark) :
    Outbox.keys (outbox tr) = (outbox tr).filterMap Outbox.Mark.heads? := by
  induction tr with
  | nil => rfl
  | cons m tr ih =>
    have hmark : Outbox.keys m.outbox = m.outbox.filterMap Outbox.Mark.heads? := by
      cases m with
      | saw s ev => cases ev <;> rfl
      | _ => rfl
    have hcons : outbox (m :: tr) = m.outbox ++ outbox tr := List.flatMap_cons
    rw [hcons, Outbox.keys_append, List.filterMap_append, hmark, ih]

variable {P : Platform}

def Platform.recorded (P : Platform) : Platform :=
  { P with
    H3 := P.H3 × List SendCall
    withTransport := fun q => ((P.withTransport q).1.map (fun h => (h, [])), (P.withTransport q).2)
    sendRequest := fun headers fin h q =>
      let a := P.sendRequest headers fin h.1 q
      (a.1, (a.2.1, h.2 ++ [.request headers fin a.1]), a.2.2)
    sendBody := fun stream bytes fin h q =>
      let a := P.sendBody stream bytes fin h.1 q
      (a.1, (a.2.1, h.2 ++ [.body stream bytes fin a.1]), a.2.2)
    pollAll := fun h q =>
      let a := P.pollAll h.1 q
      (a.1, (a.2.1, h.2), a.2.2) }

/-- The calls made on the HTTP/3 connection of a connection. -/
def Conn.calls (c : Conn P.recorded) : List SendCall := (c.h3.map Prod.snd).getD []

namespace Conn

theorem calls_of_h3 {c c' : Conn P.recorded} (h : c'.h3 = c.h3) : c'.calls = c.calls := by
  unfold calls
  rw [h]

/-- The calls `cs` are those that the marks `tr` tell of. -/
def Tells (tr : List StreamMark) (cs : List SendCall) : Prop :=
  (outbox tr).filter Outbox.Mark.answers = cs.flatMap SendCall.marks

theorem Tells.append {tr tr' : List StreamMark} {cs cs' : List SendCall} (h : Tells tr cs)
    (h' : Tells tr' cs') : Tells (tr ++ tr') (cs ++ cs') := by
  unfold Tells outbox at *
  rw [List.flatMap_append, List.filter_append, h, h', List.flatMap_append]

theorem Tells.nil : Tells [] [] := rfl

theorem Tells.keys {tr : List StreamMark} {cs : List SendCall} (h : Tells tr cs) :
    Outbox.keys (outbox tr) = SendCall.headed cs := by
  rw [keys_outbox, ← Outbox.heads_answers, h, SendCall.heads_marks]

theorem Tells.saw (evs : List (ℕ × H3Event)) :
    Tells (evs.map (fun ev => .saw ev.1 ev.2)) [] := by
  induction evs with
  | nil => exact .nil
  | cons ev evs ih =>
    have hev : Tells [.saw ev.1 ev.2] [] := by
      obtain ⟨s, ev⟩ := ev
      cases ev <;> rfl
    exact hev.append ih

theorem calls_park (c : Conn P.recorded) (s : ℕ) (body : Body) (off : ℕ) :
    (c.park s body off).calls = c.calls := by
  apply calls_of_h3
  unfold park
  split <;> rfl

/-- The calls of a connection whose HTTP/3 connection is given. -/
theorem calls_of_some {c : Conn P.recorded} {h : P.recorded.H3} (hh : c.h3 = some h) :
    c.calls = h.2 := by
  unfold calls
  rw [hh]
  rfl

theorem tells_trySend (c : Conn P.recorded) (headers : List Header) (kind : ReqKind) (body : Body) :
    ∃ cs, (c.trySend headers kind body).conn.calls = c.calls ++ cs ∧
      Tells (c.sendMarks headers kind body) cs := by
  unfold trySend sendMarks
  rcases Option.eq_none_or_eq_some c.h3 with hh | ⟨h, hh⟩
  · simp only [hh]
    exact ⟨[], (List.append_nil _).symm, .nil⟩
  · rw [calls_of_some hh]
    rcases ha : P.sendRequest headers body.isEmpty h.1 c.q with ⟨e | s, h', q'⟩
    · have hreq : P.recorded.sendRequest headers body.isEmpty h c.q =
          (.error e, (h', h.2 ++ [.request headers body.isEmpty (.error e)]), q') := by
        simp only [Platform.recorded, ha]
      simp only [hh, hreq]
      refine ⟨[.request headers body.isEmpty (.error e)], ?_, rfl⟩
      split <;> rfl
    · have hreq : P.recorded.sendRequest headers body.isEmpty h c.q =
          (.ok s, (h', h.2 ++ [.request headers body.isEmpty (.ok s)]), q') := by
        simp only [Platform.recorded, ha]
      simp only [hh, hreq]
      split
      · exact ⟨[.request headers body.isEmpty (.ok s)], rfl, rfl⟩
      · rcases hb : P.sendBody s body true h' q' with ⟨res, h'', q''⟩
        have hbody : P.recorded.sendBody s body true
            (h', h.2 ++ [.request headers body.isEmpty (.ok s)]) q' =
            (res, (h'', h.2 ++ [.request headers body.isEmpty (.ok s)] ++
              [.body s body true res]), q'') := by
          simp only [Platform.recorded, hb]
        simp only [hbody]
        refine ⟨[.request headers body.isEmpty (.ok s)] ++ [.body s body true res], ?_, ?_⟩
        · rw [← List.append_assoc]
          cases res with
          | ok n => exact calls_park _ s body n
          | error e =>
            cases e with
            | done => exact calls_park _ s body 0
            | _ => rfl
        · cases res with
          | ok n => rfl
          | error e => cases e <;> rfl

/-- One pass over the bodies that are left. -/
theorem tells_resume (h : P.recorded.H3) (q : P.recorded.Q) (ps : List PendingBody) :
    ∃ cs, (resume (P := P.recorded) h q ps).1.2 = h.2 ++ cs ∧
      Tells (resumeMarks (P := P.recorded) h q ps) cs := by
  induction ps generalizing h q with
  | nil => exact ⟨[], (List.append_nil _).symm, .nil⟩
  | cons p ps ih =>
    rcases hb : P.sendBody p.stream (p.body.drop p.off) true h.1 q with ⟨res, h', q'⟩
    have hbody : P.recorded.sendBody p.stream (p.body.drop p.off) true h q =
        (res, (h', h.2 ++ [.body p.stream (p.body.drop p.off) true res]), q') := by
      simp only [Platform.recorded, hb]
    obtain ⟨cs, hcs, htells⟩ := ih (h', h.2 ++ [.body p.stream (p.body.drop p.off) true res]) q'
    refine ⟨[.body p.stream (p.body.drop p.off) true res] ++ cs, ?_, ?_⟩
    · rw [← List.append_assoc, ← hcs]
      unfold resume
      dsimp only
      rw [hbody]
      cases res with
      | ok n =>
        dsimp only
        split <;> rfl
      | error e => cases e <;> rfl
    · unfold resumeMarks
      dsimp only
      rw [hbody]
      refine Tells.append ?_ htells
      cases res with
      | ok n => rfl
      | error e => cases e <;> rfl

theorem tells_readH3 (check : Bool) (h : P.recorded.H3) (c : Conn P.recorded) :
    ∃ cs, (c.readH3 check h).1.calls = h.2 ++ cs ∧ Tells (c.readMarks check h) cs := by
  obtain ⟨cs, hcs, htells⟩ := tells_resume (P.recorded.pollAll h c.q).2.1
    (polledQ (P := P.recorded) h c) (c.polled check h).1.pending
  refine ⟨cs, ?_, ?_⟩
  · have hread : (c.readH3 check h).1.calls = (c.resumed check h).calls := by
      unfold readH3
      split <;> rfl
    rw [hread]
    exact hcs
  · have hend : Tells (if P.recorded.isClosed (c.resumed check h).q then [.cleared] else []) [] := by
      split <;> rfl
    have hall := (Tells.saw (P.recorded.pollAll h c.q).1.1).append (htells.append hend)
    rw [List.nil_append, List.append_nil] at hall
    exact hall

theorem tells_processConn (check : Bool) (c : Conn P.recorded) :
    ∃ cs, (c.processConn check).1.calls = c.calls ++ cs ∧ Tells (c.processMarks check) cs := by
  unfold processMarks processConn
  cases he : c.socketError with
  | some err => exact ⟨[], (List.append_nil _).symm, rfl⟩
  | none =>
    dsimp only
    by_cases hc : P.recorded.isClosed c.q
    · rw [if_pos hc, if_pos hc]
      exact ⟨[], (List.append_nil _).symm, rfl⟩
    · rw [if_neg hc, if_neg hc]
      by_cases hif : c.h3.isNone ∧ P.recorded.isEstablished c.q
      · have hnone : c.calls = [] := by
          unfold calls
          rw [Option.isNone_iff_eq_none.mp hif.1]
          rfl
        rcases ht : P.withTransport c.q with ⟨e | h, q⟩
        · have hopen : P.recorded.withTransport c.q = (.error e, q) := by
            simp only [Platform.recorded, ht]
            rfl
          simp only [setupH3, if_pos hif, hopen]
          exact ⟨[], (List.append_nil _).symm, .nil⟩
        · have hopen : P.recorded.withTransport c.q = (.ok (h, []), q) := by
            simp only [Platform.recorded, ht]
            rfl
          simp only [setupH3, if_pos hif, hopen]
          rw [hnone]
          exact tells_readH3 check (h, []) _
      · have hs : c.setupH3 = .ok (c, []) := if_neg hif
        rcases Option.eq_none_or_eq_some c.h3 with hh | ⟨h, hh⟩
        · simp only [hs, hh]
          exact ⟨[], (List.append_nil _).symm, .nil⟩
        · simp only [hs, hh]
          rw [calls_of_some hh]
          exact tells_readH3 check h c

end Conn

/-- Every connection is at the end of a life whose marks its calls tell of. -/
def Mach.Hands (x : Mach P.recorded) : Prop :=
  ∀ i c, x.w.conn i = some c → ∃ tr, c.Life x.w.cfg.check tr ∧ Conn.Tells tr c.calls

theorem kept_hands : Kept (fun _ => True) (Mach.Hands (P := P)) where
  new := fun cfg os now i c hc => by simp [Worker.new, Worker.conn] at hc
  move := by
    intro x ins outs x' m _ _ h i c' hc'
    rw [m.cfg]
    rcases m.acts i c' hc' with ⟨c, hc, ha⟩ | ⟨hs, hp, hh⟩
    · obtain ⟨tr, hl, htells⟩ := h i c hc
      cases ha with
      | send headers kind body _ hlike =>
        obtain ⟨cs, hcs, hnew⟩ := Conn.tells_trySend c headers kind body
        refine ⟨_, (hl.send headers kind body).frame hlike.streams hlike.pending, ?_⟩
        rw [Conn.calls_of_h3 hlike.h3, hcs]
        exact htells.append hnew
      | read _ hlike =>
        obtain ⟨cs, hcs, hnew⟩ := Conn.tells_processConn x.w.cfg.check c
        refine ⟨_, hl.process.frame hlike.streams hlike.pending, ?_⟩
        rw [Conn.calls_of_h3 hlike.h3, hcs]
        exact htells.append hnew
      | touch hs hp hh _ =>
        refine ⟨tr, hl.frame hs hp, ?_⟩
        rw [Conn.calls_of_h3 hh]
        exact htells
      | clear hs hp hh _ =>
        refine ⟨_, hl.clear hs hp, ?_⟩
        have hnew : Conn.Tells [.cleared] [] := rfl
        rw [Conn.calls_of_h3 hh, ← List.append_nil c.calls]
        exact htells.append hnew
    · refine ⟨[], .new hs hp, ?_⟩
      unfold Conn.calls
      rw [hh]
      exact .nil
  interfere := fun s _ h i c hc => h i c hc
  command := fun cmd _ _ _ _ h i c hc => h i c hc

/-- The calls that were made on a connection of a run are those its life tells of. -/
theorem Thread.Reach.exists_calls {cfg : EngineConfig} {t : Thread P.recorded} {i : ℕ}
    {c : Conn P.recorded} (h : t.Reach cfg) (hc : t.w.conn i = some c) :
    ∃ tr, c.Life cfg.check tr ∧ Conn.Tells tr c.calls := by
  have hk := ((kept_hands.mono (fun _ _ => trivial)).reached h).2.1 i c hc
  rwa [h.cfg_eq] at hk

end Http3Bench
