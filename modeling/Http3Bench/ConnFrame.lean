import Http3Bench.Slots
import Http3Bench.Quiche

/-!
# What the functions of one connection leave alone

`Frame` is how far the dial of a connection is, its timers and its counter: none of `try_send`,
`process_conn` and the send loop of `flush` touches them. `Read` lists what `process_conn` can make
of a connection, so that its properties are proved case by case and not along its text.
-/

namespace Http3Bench

variable {P : Platform}

namespace Conn

/-- How far the dial of a connection is, its timers, its counter and its identity. -/
def key (c : Conn P) : State × Option DialJob × Option Instant × Option Instant × Option Instant ×
    Bool × ℕ × ℕ :=
  (c.state, c.dial, c.attemptDeadline, c.deadline, c.scheduled, c.dirty, c.inFlight, c.uid)

def Frame (c c' : Conn P) : Prop := c'.key = c.key

variable {c c' c'' : Conn P}

namespace Frame

theorem refl (c : Conn P) : Frame c c := rfl

theorem trans (h : Frame c c') (h' : Frame c' c'') : Frame c c'' := Eq.trans h' h

theorem state (h : Frame c c') : c'.state = c.state := congrArg (fun k => k.1) h

theorem dial (h : Frame c c') : c'.dial = c.dial := congrArg (fun k => k.2.1) h

theorem attemptDeadline (h : Frame c c') : c'.attemptDeadline = c.attemptDeadline :=
  congrArg (fun k => k.2.2.1) h

theorem deadline (h : Frame c c') : c'.deadline = c.deadline := congrArg (fun k => k.2.2.2.1) h

theorem scheduled (h : Frame c c') : c'.scheduled = c.scheduled :=
  congrArg (fun k => k.2.2.2.2.1) h

theorem dirty (h : Frame c c') : c'.dirty = c.dirty := congrArg (fun k => k.2.2.2.2.2.1) h

theorem inFlight (h : Frame c c') : c'.inFlight = c.inFlight :=
  congrArg (fun k => k.2.2.2.2.2.2.1) h

theorem uid (h : Frame c c') : c'.uid = c.uid := congrArg (fun k => k.2.2.2.2.2.2.2) h

end Frame

theorem frame_park (c : Conn P) (stream : ℕ) (body : Body) (off : ℕ) :
    Frame c (c.park stream body off) := by
  unfold park
  split <;> exact rfl

/-- The send loop of `flush` changes the QUIC connection and may leave an error of the socket. -/
theorem sendLoop_cases (c : Conn P) (sent : Bool) (answers : List SockSend) :
    ∃ q e, (c.sendLoop sent answers).1 = { c with q := q, socketError := e } ∧ Calls c.q q := by
  have called : ∀ (c : Conn P) {r q}, P.send c.q = (r, q) → Calls c.q q := by
    intro c r q hq
    have hcall : Call c.q (P.send c.q).2 := .send
    rw [hq] at hcall
    exact hcall.calls
  have closed : ∀ (c : Conn P) {r q}, P.send c.q = (r, q) →
      Calls c.q (P.close false 0x1 "send failed" q) := fun c _ _ hq =>
    (called c hq).trans (Call.close _ _ _).calls
  induction answers generalizing c sent with
  | nil =>
    unfold sendLoop
    split
    · exact ⟨_, c.socketError, rfl, called c ‹_›⟩
    · exact ⟨_, c.socketError, rfl, called c ‹_›⟩
    · exact ⟨_, _, rfl, closed c ‹_›⟩
  | cons a rest ih =>
    unfold sendLoop
    split
    · rename_i q hq
      cases a with
      | sent =>
        obtain ⟨q', e, heq, hcalls⟩ := ih { c with q := q } true
        exact ⟨q', e, heq, (called c hq).trans hcalls⟩
      | wouldBlock => exact ⟨q, c.socketError, rfl, called c hq⟩
      | failed e => exact ⟨q, _, rfl, called c hq⟩
    · exact ⟨_, c.socketError, rfl, called c ‹_›⟩
    · exact ⟨_, _, rfl, closed c ‹_›⟩

theorem frame_received (c : Conn P) (ds : List Body × Option String) (now : Instant) :
    Frame c (c.received ds now) := rfl

theorem frame_updateReq (c : Conn P) (sid : ℕ) (f : Req → Req) : Frame c (c.updateReq sid f) := by
  unfold updateReq
  split <;> exact rfl

theorem frame_onEvent (check : Bool) (c : Conn P) (ev : ℕ × H3Event) :
    Frame c (c.onEvent check ev).1 := by
  obtain ⟨sid, ev⟩ := ev
  cases ev with
  | headers list => exact frame_updateReq _ _ _
  | data reads => exact frame_updateReq _ _ _
  | finished =>
    simp only [onEvent]
    split <;> exact rfl
  | reset code =>
    simp only [onEvent]
    split <;> exact rfl
  | goAway => exact rfl
  | priorityUpdate => exact .refl c

theorem frame_onEvents (check : Bool) (c : Conn P) (evs : List (ℕ × H3Event)) :
    Frame c (c.onEvents check evs).1 := by
  induction evs generalizing c with
  | nil => exact .refl c
  | cons ev rest ih => exact (frame_onEvent check c ev).trans (ih _)

theorem frame_resumed (check : Bool) (h : P.H3) (c : Conn P) : Frame c (c.resumed check h) :=
  Eq.trans rfl (Eq.trans (frame_onEvents check _ _) rfl)

theorem queued_park (c : Conn P) (stream : ℕ) (body : Body) (off : ℕ) :
    (c.park stream body off).queued = c.queued := by
  unfold park
  split <;> rfl

theorem queued_updateReq (c : Conn P) (sid : ℕ) (f : Req → Req) :
    (c.updateReq sid f).queued = c.queued := by
  unfold updateReq
  split <;> rfl

theorem queued_onEvent (check : Bool) (c : Conn P) (ev : ℕ × H3Event) :
    (c.onEvent check ev).1.queued = c.queued := by
  obtain ⟨sid, ev⟩ := ev
  cases ev with
  | headers list => exact queued_updateReq _ _ _
  | data reads => exact queued_updateReq _ _ _
  | finished =>
    simp only [onEvent]
    split <;> rfl
  | reset code =>
    simp only [onEvent]
    split <;> rfl
  | goAway => rfl
  | priorityUpdate => rfl

theorem queued_onEvents (check : Bool) (c : Conn P) (evs : List (ℕ × H3Event)) :
    (c.onEvents check evs).1.queued = c.queued := by
  induction evs generalizing c with
  | nil => rfl
  | cons ev rest ih => exact (ih _).trans (queued_onEvent check c ev)

end Conn

/-- What `try_send` can make of a connection, and its answer. -/
inductive TrySend (headers : List Header) (kind : ReqKind) (body : Body) (c : Conn P) :
    Sent P → Prop
  | noH3 : c.h3 = none →
      TrySend headers kind body c ⟨c, .error (.failed "no HTTP/3 connection"), false, false⟩
  | blocked {h h' : P.H3} {q' : P.Q} {e : H3Error} : c.h3 = some h →
      P.sendRequest headers body.isEmpty h c.q = (.error e, h', q') → e.blocks →
      TrySend headers kind body c ⟨{ c with h3 := some h', q := q' },
        .error (.blocked ("send request: " ++ e.text)), false, false⟩
  | refused {h h' : P.H3} {q' : P.Q} {e : H3Error} : c.h3 = some h →
      P.sendRequest headers body.isEmpty h c.q = (.error e, h', q') →
      TrySend headers kind body c
        (Conn.refuse { c with h3 := some h', q := q' } ("send request: " ++ e.text))
  | bodyRefused {h h' h'' : P.H3} {q' q'' : P.Q} {s : ℕ} {e : H3Error} : c.h3 = some h →
      P.sendRequest headers body.isEmpty h c.q = (.ok s, h', q') →
      P.sendBody s body true h' q' = (.error e, h'', q'') →
      TrySend headers kind body c
        (Conn.refuse { c with h3 := some h'', q := q'' } ("send body: " ++ e.text))
  | sent {h h' h'' : P.H3} {q' q'' : P.Q} {s : ℕ} (off : ℕ) : c.h3 = some h →
      P.sendRequest headers body.isEmpty h c.q = (.ok s, h', q') →
      (h'' = h' ∧ q'' = q' ∨ ∃ r, P.sendBody s body true h' q' = (r, h'', q'')) →
      TrySend headers kind body c
        ((Conn.park { c with h3 := some h'', q := q'' } s body off).record s kind body)

theorem trySend_cases (headers : List Header) (kind : ReqKind) (body : Body) (c : Conn P) :
    TrySend headers kind body c (c.trySend headers kind body) := by
  unfold Conn.trySend
  rcases Option.eq_none_or_eq_some c.h3 with hh | ⟨h, hh⟩
  · simp only [hh]
    exact .noH3 hh
  · rcases ha : P.sendRequest headers body.isEmpty h c.q with ⟨e | s, h', q'⟩
    · simp only [hh, ha]
      split
      · exact .blocked hh ha ‹_›
      · exact .refused hh ha
    · simp only [hh, ha]
      split
      · rename_i hb
        have : TrySend headers kind body c
            ((Conn.park { c with h3 := some h', q := q' } s body 0).record s kind body) :=
          .sent 0 hh ha (.inl ⟨rfl, rfl⟩)
        simpa [Conn.park, hb] using this
      · rcases hb : P.sendBody s body true h' q' with ⟨e | n, h'', q''⟩
        · cases e with
          | done => exact .sent 0 hh ha (.inr ⟨_, hb⟩)
          | _ => exact .bodyRefused hh ha hb
        · exact .sent n hh ha (.inr ⟨_, hb⟩)

section

variable {headers : List Header} {kind : ReqKind} {body : Body} {c : Conn P} {s : Sent P}

theorem TrySend.frame (hs : TrySend headers kind body c s) : Conn.Frame c s.conn := by
  cases hs with
  | sent off => exact Eq.trans (Conn.frame_park _ _ _ _) rfl
  | _ => rfl

theorem TrySend.h3 (hs : TrySend headers kind body c s) : c.h3.isSome → s.conn.h3.isSome := by
  intro hh
  cases hs with
  | noH3 => exact hh
  | sent off =>
    simp only [Conn.record, Conn.park]
    split <;> rfl
  | _ => rfl

theorem TrySend.queued (hs : TrySend headers kind body c s) : s.conn.queued = c.queued := by
  cases hs with
  | sent off => exact Conn.queued_park _ _ _ _
  | _ => rfl

end

/-- How `process_conn` gets to an HTTP/3 connection: it has one, or the handshake has just ended. -/
inductive Setup (c : Conn P) : Conn P → P.H3 → List ConnEvent → Prop
  | old {h : P.H3} : c.h3 = some h → Setup c c h []
  | new {h : P.H3} {q : P.Q} : c.h3 = none → P.isEstablished c.q → P.withTransport c.q = (.ok h, q) →
      Setup c { c with h3 := some h, q := q } h (if c.state = .connecting then [.established] else [])

/-- What `process_conn` can make of a connection, and the events it returns. -/
inductive Read (check : Bool) (c : Conn P) : Conn P → List ConnEvent → Prop
  | shut {q : P.Q} (reason : String) : Calls c.q q →
      c.socketError.isSome ∨ P.isClosed c.q →
      Read check c (({ c with socketError := none, q := q } : Conn P).shut reason).1
        (({ c with socketError := none, q := q } : Conn P).shut reason).2
  | failed (q : P.Q) (reason : String) :
      c.h3 = none → Read check c { c with q := P.close true 0x101 "" q } [.closed reason]
  | waiting : c.h3 = none → Read check c c []
  | polled {c₁ : Conn P} {h : P.H3} {evs : List ConnEvent} :
      Setup c c₁ h evs → P.isClosed c.q = false → P.isClosed (c₁.resumed check h).q = false →
      Read check c (c₁.resumed check h) (evs ++ (c₁.polled check h).2)
  | polledShut {c₁ : Conn P} {h : P.H3} {evs : List ConnEvent} (reason : String) :
      Setup c c₁ h evs → P.isClosed c.q = false → P.isClosed (c₁.resumed check h).q →
      Read check c ((c₁.resumed check h).shut reason).1
        (evs ++ ((c₁.polled check h).2 ++ ((c₁.resumed check h).shut reason).2))

theorem read_readH3 {check : Bool} {c c₁ : Conn P} {h : P.H3} {evs : List ConnEvent}
    (hs : Setup c c₁ h evs) (hc : P.isClosed c.q = false) :
    Read check c (c₁.readH3 check h).1 (evs ++ (c₁.readH3 check h).2) := by
  unfold Conn.readH3
  split
  · exact .polledShut _ hs hc ‹_›
  · exact .polled hs hc (by simpa using ‹¬ P.isClosed _ = true›)

theorem read_processConn (check : Bool) (c : Conn P) :
    Read check c (c.processConn check).1 (c.processConn check).2 := by
  unfold Conn.processConn
  cases he : c.socketError with
  | some err =>
    refine .shut err ?_ (.inl (by simp [he]))
    split
    · exact .refl _
    · exact (Call.close _ _ _).calls
  | none =>
    simp only
    by_cases hc : P.isClosed c.q
    · rw [if_pos hc]
      have h : Read check c _ _ := .shut (closeReason c.q) (.refl _) (.inr hc)
      rwa [← he] at h
    · rw [if_neg hc]
      rw [Bool.not_eq_true] at hc
      rcases Option.eq_none_or_eq_some c.h3 with hh | ⟨h, hh⟩
      · by_cases hq : P.isEstablished c.q
        · have hif : c.h3.isNone ∧ P.isEstablished c.q := ⟨by simp [hh], hq⟩
          rcases ht : P.withTransport c.q with ⟨e | h, q⟩
          · simp only [Conn.setupH3, if_pos hif, ht]
            exact .failed _ _ hh
          · simp only [Conn.setupH3, if_pos hif, ht]
            exact read_readH3 (.new hh hq ht) hc
        · have hs : c.setupH3 = .ok (c, []) := by simp [Conn.setupH3, hq]
          simp only [hs, hh]
          exact .waiting hh
      · have hs : c.setupH3 = .ok (c, []) := by simp [Conn.setupH3, hh]
        simp only [hs, hh]
        exact read_readH3 (.old hh) hc

section

variable {check : Bool} {c c' c₁ : Conn P} {h : P.H3} {evs : List ConnEvent}

theorem Setup.frame (hs : Setup c c₁ h evs) : Conn.Frame c c₁ := by
  cases hs <;> rfl

theorem Setup.queued (hs : Setup c c₁ h evs) : c₁.queued = c.queued := by
  cases hs <;> rfl

theorem Read.frame (hr : Read check c c' evs) : Conn.Frame c c' := by
  cases hr with
  | shut reason => rfl
  | failed q reason => rfl
  | waiting => rfl
  | polled hs => exact hs.frame.trans (Conn.frame_resumed _ _ _)
  | polledShut reason hs => exact hs.frame.trans (Eq.trans rfl (Conn.frame_resumed _ _ _))

theorem Read.h3 (hr : Read check c c' evs) : c.h3.isSome → c'.h3.isSome := by
  intro hh
  cases hr with
  | shut reason => exact hh
  | failed q reason => exact hh
  | waiting => exact hh
  | polled hs => rfl
  | polledShut reason hs => rfl

/-- What is queued on a connection after it has been read: what was, or nothing. -/
theorem Read.queued (hr : Read check c c' evs) : c'.queued = c.queued ∨ c'.queued = [] := by
  cases hr with
  | shut reason => exact .inr rfl
  | failed q reason => exact .inl rfl
  | waiting => exact .inl rfl
  | polled hs => exact .inl ((Conn.queued_onEvents _ _ _).trans hs.queued)
  | polledShut reason hs => exact .inr rfl

end

end Http3Bench
