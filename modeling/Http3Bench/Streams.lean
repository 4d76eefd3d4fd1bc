import Http3Bench.Outbox
import Http3Bench.Attempts
import Http3Bench.Acts

/-!
# The streams of a connection over its life

`sendMarks` and `processMarks` write down what one `try_send` and one `process_conn` meet on the
streams of a connection: the requests quiche opened a stream for, the bytes it took of their bodies,
the events it handed out. A `Life` is a connection with the marks of everything it has been through;
every connection of a run has one, and nothing else in the worker touches its streams. What is left
to be sent of the bodies is an outbox run by these marks.
-/

namespace Http3Bench

inductive StreamMark
  | opened (sid : ℕ) (kind : ReqKind) (body : Body)
  /-- A stream was opened and its body refused. -/
  | spoiled (sid : ℕ) (body : Body)
  | took (sid : ℕ) (bytes : Body)
  /-- A body that was waiting was refused. -/
  | refused (sid : ℕ)
  | saw (sid : ℕ) (ev : H3Event)
  /-- The streams went down with the connection. -/
  | cleared
  deriving DecidableEq

def StreamMark.outbox : StreamMark → List Outbox.Mark
  | .opened sid _ body => [.opened sid body, .headed sid]
  | .spoiled sid body => [.opened sid body, .headed sid, .refused sid]
  | .took sid bytes => [.took sid bytes]
  | .refused sid => [.refused sid]
  | .saw sid (.reset _) => [.reset sid]
  | .saw _ _ => []
  | .cleared => [.cleared]

def outbox (tr : List StreamMark) : List Outbox.Mark := tr.flatMap StreamMark.outbox

def PendingBody.entry (p : PendingBody) : Outbox.Entry := ⟨p.stream, true, p.body, p.off⟩

variable {P : Platform}

namespace Conn

/-- What one `try_send` meets. -/
def sendMarks (headers : List Header) (kind : ReqKind) (body : Body) (c : Conn P) : List StreamMark :=
  match c.h3 with
  | none => []
  | some h =>
    let a := P.sendRequest headers body.isEmpty h c.q
    match a.1 with
    | .error _ => []
    | .ok stream =>
      if body = [] then [.opened stream kind body]
      else match (P.sendBody stream body true a.2.1 a.2.2).1 with
        | .ok n => [.opened stream kind body, .took stream (body.take n)]
        | .error .done => [.opened stream kind body]
        | .error _ => [.spoiled stream body]

/-- What one pass over the bodies still to be sent meets. -/
def resumeMarks (h : P.H3) (q : P.Q) : List PendingBody → List StreamMark
  | [] => []
  | p :: rest =>
    let a := P.sendBody p.stream (p.body.drop p.off) true h q
    (match a.1 with
      | .ok n => [.took p.stream ((p.body.drop p.off).take n)]
      | .error .done => []
      | .error _ => [.refused p.stream]) ++ resumeMarks a.2.1 a.2.2 rest

/-- What one `process_conn` that has an HTTP/3 connection meets. -/
def readMarks (check : Bool) (h : P.H3) (c : Conn P) : List StreamMark :=
  (P.pollAll h c.q).1.1.map (fun ev => .saw ev.1 ev.2) ++
    (resumeMarks (P.pollAll h c.q).2.1 (c.polledQ h) (c.polled check h).1.pending ++
      if P.isClosed (c.resumed check h).q then [.cleared] else [])

/-- What one `process_conn` meets. -/
def processMarks (check : Bool) (c : Conn P) : List StreamMark :=
  match c.socketError with
  | some _ => [.cleared]
  | none =>
    if P.isClosed c.q then [.cleared]
    else match c.setupH3 with
      | .error _ => []
      | .ok r => match r.1.h3 with
        | none => []
        | some h => r.1.readMarks check h

inductive Life (check : Bool) : List StreamMark → Conn P → Prop
  | new {c : Conn P} : c.streams = ∅ → c.pending = [] → Life check [] c
  | send {c : Conn P} {tr : List StreamMark} (headers : List Header) (kind : ReqKind) (body : Body) :
      Life check tr c →
      Life check (tr ++ c.sendMarks headers kind body) (c.trySend headers kind body).conn
  | process {c : Conn P} {tr : List StreamMark} : Life check tr c →
      Life check (tr ++ c.processMarks check) (c.processConn check).1
  /-- Something that does not concern the streams. -/
  | frame {c c' : Conn P} {tr : List StreamMark} : Life check tr c → c'.streams = c.streams →
      c'.pending = c.pending → Life check tr c'
  | clear {c c' : Conn P} {tr : List StreamMark} : Life check tr c → c'.streams = ∅ → c'.pending = [] →
      Life check (tr ++ [.cleared]) c'

end Conn

namespace Conn

/-- How `try_send` changes the streams, with what it meets. -/
inductive Sends (c : Conn P) (kind : ReqKind) (body : Body) : List StreamMark → Conn P → Prop
  | unsent {c' : Conn P} : c'.streams = c.streams → c'.pending = c.pending → Sends c kind body [] c'
  | spoiled {c' : Conn P} (s : ℕ) : body ≠ [] → c'.streams = c.streams → c'.pending = c.pending →
      Sends c kind body [.spoiled s body] c'
  | whole {c' : Conn P} (s : ℕ) : body = [] →
      c'.streams = c.streams.insert s { kind, expect := if kind = .dial then [] else body } →
      c'.pending = c.pending → Sends c kind body [.opened s kind body] c'
  | waiting {c' : Conn P} (s : ℕ) : body ≠ [] →
      c'.streams = c.streams.insert s { kind, expect := if kind = .dial then [] else body } →
      c'.pending = c.pending ++ [⟨s, body, 0⟩] → Sends c kind body [.opened s kind body] c'
  | part {c' : Conn P} (s n : ℕ) : body ≠ [] →
      c'.streams = c.streams.insert s { kind, expect := if kind = .dial then [] else body } →
      c'.pending = (if n < body.length then c.pending ++ [⟨s, body, n⟩] else c.pending) →
      Sends c kind body [.opened s kind body, .took s (body.take n)] c'

theorem pending_park (c : Conn P) (s : ℕ) (body : Body) (off : ℕ) :
    (c.park s body off).pending =
      if off < body.length then c.pending ++ [⟨s, body, off⟩] else c.pending := by
  unfold park
  split <;> rfl

theorem sends_trySend (c : Conn P) (headers : List Header) (kind : ReqKind) (body : Body) :
    Sends c kind body (c.sendMarks headers kind body) (c.trySend headers kind body).conn := by
  unfold trySend sendMarks
  rcases Option.eq_none_or_eq_some c.h3 with hh | ⟨h3, hh⟩
  · simp only [hh]
    exact .unsent rfl rfl
  · rcases ha : P.sendRequest headers body.isEmpty h3 c.q with ⟨e | s, h', q'⟩
    · simp only [hh, ha]
      split <;> exact .unsent rfl rfl
    · simp only [hh, ha]
      split
      · exact .whole s ‹_› rfl rfl
      · rename_i hne
        have hpos : 0 < body.length := List.length_pos_iff.mpr hne
        rcases hb : P.sendBody s body true h' q' with ⟨e | n, h'', q''⟩
        · cases e with
          | done =>
            refine .waiting s hne ?_ ?_
            · dsimp only [record]
              rw [streams_park]
            · exact (pending_park _ _ _ _).trans (if_pos hpos)
          | _ => exact .spoiled s hne rfl rfl
        · refine .part s n hne ?_ (pending_park _ _ _ _)
          dsimp only [record]
          rw [streams_park]

/-- How `process_conn` changes the streams, with what it meets and the events it returns. -/
inductive Processed (check : Bool) (c : Conn P) : List StreamMark → Conn P × List ConnEvent → Prop
  | cleared {r : Conn P × List ConnEvent} : r.1.streams = ∅ → r.1.pending = [] →
      Processed check c [.cleared] r
  | unread {r : Conn P × List ConnEvent} : r.1.streams = c.streams → r.1.pending = c.pending →
      Processed check c [] r
  | read {c₁ : Conn P} {h : P.H3} {start : List ConnEvent} : c₁.streams = c.streams →
      c₁.pending = c.pending → start = [] ∨ start = [.established] →
      Processed check c (c₁.readMarks check h)
        ((c₁.readH3 check h).1, start ++ (c₁.readH3 check h).2)

theorem processed_processConn (check : Bool) (c : Conn P) :
    Processed check c (c.processMarks check) (c.processConn check) := by
  unfold processMarks processConn
  cases he : c.socketError with
  | some err => exact .cleared rfl rfl
  | none =>
    dsimp only
    by_cases hc : P.isClosed c.q
    · rw [if_pos hc, if_pos hc]
      exact .cleared rfl rfl
    · rw [if_neg hc, if_neg hc]
      by_cases hif : c.h3.isNone ∧ P.isEstablished c.q
      · rcases ht : P.withTransport c.q with ⟨e | h, q⟩
        · simp only [setupH3, if_pos hif, ht]
          exact .unread rfl rfl
        · simp only [setupH3, if_pos hif, ht]
          exact .read rfl rfl (by split <;> simp)
      · have hs : c.setupH3 = .ok (c, []) := if_neg hif
        rcases Option.eq_none_or_eq_some c.h3 with hh | ⟨h, hh⟩
        · simp only [hs, hh]
          exact .unread rfl rfl
        · simp only [hs, hh]
          exact .read rfl rfl (.inl rfl)

end Conn

/-! ### What is recorded of a stream -/

/-- The request of stream `sid` after one more mark. -/
def StreamMark.req (check : Bool) (sid : ℕ) (r : Option Req) : StreamMark → Option Req
  | .opened s kind body =>
    if s = sid then some { kind, expect := if kind = .dial then [] else body } else r
  | .saw s (.headers list) => if s = sid then r.map (Req.readHeaders list) else r
  | .saw s (.data reads) => if s = sid then r.map (fun r => reads.foldl (Req.readBody check) r) else r
  | .saw s .finished | .saw s (.reset _) => if s = sid then none else r
  | .cleared => none
  | _ => r

/-- The request recorded for stream `sid`, by the marks alone. -/
def reqOf (check : Bool) (sid : ℕ) (tr : List StreamMark) : Option Req :=
  tr.foldl (StreamMark.req check sid) none

theorem reqOf_append (check : Bool) (sid : ℕ) (tr : List StreamMark) (m : StreamMark) :
    reqOf check sid (tr ++ [m]) = (reqOf check sid tr |> fun r => m.req check sid r) := by
  simp [reqOf]

namespace Conn

/-- The streams of a connection are those its marks record. -/
def Recorded (check : Bool) (tr : List StreamMark) (c : Conn P) : Prop :=
  ∀ sid, c.streams.lookup sid = reqOf check sid tr

variable {check : Bool} {tr : List StreamMark} {c c' : Conn P}

theorem lookup_updateReq (c : Conn P) (s sid : ℕ) (f : Req → Req) :
    (c.updateReq s f).streams.lookup sid =
      if s = sid then (c.streams.lookup sid).map f else c.streams.lookup sid := by
  unfold updateReq
  by_cases h : s = sid
  · subst h
    cases hl : c.streams.lookup s with
    | none => simp [hl]
    | some r => simp
  · rw [if_neg h]
    split
    · exact AList.lookup_insert_ne (Ne.symm h)
    · rfl

theorem lookup_erase (c : Conn P) (s sid : ℕ) :
    (c.streams.erase s).lookup sid = if s = sid then none else c.streams.lookup sid := by
  by_cases h : s = sid
  · subst h
    simp
  · rw [if_neg h, AList.lookup_erase_ne (Ne.symm h)]

theorem lookup_insert_req (check : Bool) (streams : AList (fun _ : ℕ => Req)) (s sid : ℕ) (kind : ReqKind)
    (body : Body) :
    (streams.insert s { kind, expect := if kind = .dial then [] else body }).lookup sid =
      StreamMark.req check sid (streams.lookup sid) (.opened s kind body) := by
  unfold StreamMark.req
  dsimp only
  by_cases h : s = sid
  · subst h
    simp
  · rw [if_neg h, AList.lookup_insert_ne (Ne.symm h)]

theorem Recorded.event (h : c.Recorded check tr) (ev : ℕ × H3Event) :
    (c.onEvent check ev).1.Recorded check (tr ++ [.saw ev.1 ev.2]) := by
  intro sid
  obtain ⟨s, ev⟩ := ev
  rw [reqOf_append, ← h sid]
  cases ev with
  | headers list => exact lookup_updateReq c s sid _
  | data reads => exact lookup_updateReq c s sid _
  | finished =>
    unfold onEvent StreamMark.req
    dsimp only
    split
    · exact lookup_erase c s sid
    · rename_i hs
      by_cases hk : s = sid
      · rw [if_pos hk, ← hk, hs]
      · rw [if_neg hk]
  | reset code =>
    unfold onEvent StreamMark.req
    dsimp only
    split
    · exact lookup_erase c s sid
    · rename_i hs
      by_cases hk : s = sid
      · rw [if_pos hk, ← hk]
        exact hs
      · rw [if_neg hk]
  | goAway => rfl
  | priorityUpdate => rfl

theorem Recorded.events (h : c.Recorded check tr) (evs : List (ℕ × H3Event)) :
    (c.onEvents check evs).1.Recorded check (tr ++ evs.map (fun ev => .saw ev.1 ev.2)) := by
  induction evs generalizing c tr with
  | nil => simpa [onEvents] using h
  | cons ev evs ih =>
    have := ih (h.event ev)
    rwa [List.append_assoc] at this

theorem Recorded.resume (h : c.Recorded check tr) (h3 : P.H3) (q : P.Q) (ps : List PendingBody) :
    c.Recorded check (tr ++ resumeMarks h3 q ps) := by
  induction ps generalizing tr h3 q with
  | nil => simpa [resumeMarks] using h
  | cons p ps ih =>
    unfold resumeMarks
    dsimp only
    rw [← List.append_assoc]
    refine ih ?_ _ _
    intro sid
    split
    · rw [reqOf_append]
      exact h sid
    · rw [List.append_nil]
      exact h sid
    · rw [reqOf_append]
      exact h sid

theorem Recorded.cleared (hs : c'.streams = ∅) : c'.Recorded check (tr ++ [.cleared]) := by
  intro sid
  rw [reqOf_append, hs]
  rfl

theorem Recorded.send (h : c.Recorded check tr) {kind : ReqKind} {body : Body}
    {marks : List StreamMark} (hs : c.Sends kind body marks c') :
    c'.Recorded check (tr ++ marks) := by
  intro sid
  cases hs with
  | unsent hst hp =>
    rw [List.append_nil, hst]
    exact h sid
  | spoiled s hb hst hp =>
    rw [reqOf_append, hst]
    exact h sid
  | whole s hb hst hp => rw [reqOf_append, hst, ← h sid, lookup_insert_req check]
  | waiting s hb hst hp => rw [reqOf_append, hst, ← h sid, lookup_insert_req check]
  | part s n hb hst hp =>
    rw [← List.singleton_append, ← List.append_assoc, reqOf_append, reqOf_append, hst, ← h sid,
      lookup_insert_req check]
    rfl

theorem Recorded.processed (h : c.Recorded check tr) {marks : List StreamMark}
    {r : Conn P × List ConnEvent} (hp : c.Processed check marks r) :
    r.1.Recorded check (tr ++ marks) := by
  cases hp with
  | cleared hs => exact .cleared hs
  | unread hs =>
    intro sid
    rw [List.append_nil, hs]
    exact h sid
  | @read c₁ h3 start hs _ =>
    have h₁ : c₁.Recorded check tr := fun sid => by rw [hs]; exact h sid
    have hresumed : (c₁.resumed check h3).Recorded check (tr ++
        ((P.pollAll h3 c₁.q).1.1.map (fun ev => .saw ev.1 ev.2) ++
          resumeMarks (P.pollAll h3 c₁.q).2.1 (c₁.polledQ h3) (c₁.polled check h3).1.pending)) := by
      have hread : Recorded check tr
          ({ c₁ with h3 := some (P.pollAll h3 c₁.q).2.1, q := (P.pollAll h3 c₁.q).2.2 } : Conn P) := h₁
      rw [← List.append_assoc]
      exact (hread.events _).resume _ _ _
    unfold readMarks readH3
    rw [← List.append_assoc (List.map _ _), ← List.append_assoc tr]
    split
    · exact .cleared rfl
    · rw [List.append_nil]
      exact hresumed

theorem Life.recorded (h : Life check tr c) : c.Recorded check tr := by
  induction h with
  | new hs =>
    intro sid
    rw [hs]
    rfl
  | send headers kind body _ ih => exact ih.send (sends_trySend _ _ _ _)
  | process _ ih => exact ih.processed (processed_processConn _ _)
  | frame _ hs _ ih =>
    intro sid
    rw [hs]
    exact ih sid
  | clear _ hs => exact .cleared hs

end Conn

/-! ### What is left to be sent -/

theorem outbox_append (tr : List StreamMark) (m : StreamMark) :
    outbox (tr ++ [m]) = outbox tr ++ m.outbox := by
  simp [outbox]

namespace Conn

/-- The bodies still to be sent are an outbox run by the marks. -/
def Owed (tr : List StreamMark) (c : Conn P) : Prop :=
  Outbox.Run (outbox tr) (c.pending.map PendingBody.entry)

variable {check : Bool} {tr : List StreamMark} {c c' : Conn P}

theorem Owed.cleared (h : c.Owed tr) (hp : c'.pending = []) : c'.Owed (tr ++ [.cleared]) := by
  rw [Owed, outbox_append, hp]
  exact Outbox.Run.cleared h

theorem pending_onEvent (check : Bool) (c : Conn P) (s : ℕ) (ev : H3Event) :
    (c.onEvent check (s, ev)).1.pending = match ev with
      | .reset _ => c.pending.filter (fun p => p.stream ≠ s)
      | _ => c.pending := by
  cases ev with
  | headers list =>
    unfold onEvent updateReq
    dsimp only
    split <;> rfl
  | data reads =>
    unfold onEvent updateReq
    dsimp only
    split <;> rfl
  | finished =>
    unfold onEvent
    dsimp only
    split <;> rfl
  | reset code =>
    unfold onEvent
    dsimp only
    split <;> rfl
  | goAway => rfl
  | priorityUpdate => rfl

theorem Owed.event (h : c.Owed tr) (check : Bool) (ev : ℕ × H3Event) :
    (c.onEvent check ev).1.Owed (tr ++ [.saw ev.1 ev.2]) := by
  obtain ⟨s, ev⟩ := ev
  rw [Owed, outbox_append, pending_onEvent]
  cases ev with
  | reset code =>
    have hrun := Outbox.Run.reset s h
    rwa [List.filter_map] at hrun
  | _ =>
    rw [StreamMark.outbox, List.append_nil]
    · exact h
    all_goals simp

theorem Owed.events (h : c.Owed tr) (check : Bool) (evs : List (ℕ × H3Event)) :
    (c.onEvents check evs).1.Owed (tr ++ evs.map (fun ev => .saw ev.1 ev.2)) := by
  induction evs generalizing c tr with
  | nil => simpa [onEvents] using h
  | cons ev evs ih =>
    have := ih (h.event check ev)
    rwa [List.append_assoc] at this

/-- One pass over the bodies that are left, those before it already sent on. -/
theorem run_resume {tr : List StreamMark} (sent ps : List PendingBody) (h : P.H3) (q : P.Q)
    (hr : Outbox.Run (outbox tr) ((sent ++ ps).map PendingBody.entry)) :
    Outbox.Run (outbox (tr ++ resumeMarks h q ps))
      ((sent ++ (resume h q ps).2.2).map PendingBody.entry) := by
  induction ps generalizing tr sent h q with
  | nil => simpa [resumeMarks, resume] using hr
  | cons p ps ih =>
    have hr' : Outbox.Run (outbox tr)
        (sent.map PendingBody.entry ++ p.entry :: ps.map PendingBody.entry) := by
      simpa using hr
    unfold resumeMarks resume
    dsimp only
    rw [← List.append_assoc]
    cases (P.sendBody p.stream (p.body.drop p.off) true h q).1 with
    | ok n =>
      have htook := hr'.changed (.took n rfl)
      by_cases hlt : p.off + n < p.body.length
      · simp only [if_pos hlt]
        rw [List.append_cons sent]
        refine ih (sent ++ [{ p with off := p.off + n }]) _ _ ?_
        rw [outbox_append]
        simpa [StreamMark.outbox, PendingBody.entry, hlt] using htook
      · simp only [if_neg hlt]
        refine ih sent _ _ ?_
        rw [outbox_append]
        simpa [StreamMark.outbox, PendingBody.entry, hlt] using htook
    | error e =>
      cases e with
      | done =>
        dsimp only
        rw [List.append_nil, List.append_cons]
        exact ih (sent ++ [p]) _ _ (by simpa using hr)
      | _ =>
        refine ih sent _ _ ?_
        rw [outbox_append]
        simpa [StreamMark.outbox, PendingBody.entry] using hr'.changed .refused

theorem Owed.send (h : c.Owed tr) {kind : ReqKind} {body : Body} {marks : List StreamMark}
    (hs : c.Sends kind body marks c') : c'.Owed (tr ++ marks) := by
  have hopened : ∀ s, Outbox.Run (outbox tr ++ [.opened s body, .headed s])
      (c.pending.map PendingBody.entry ++
        (if body = [] then none else some ⟨s, true, body, 0⟩ : Option Outbox.Entry).toList) := by
    intro s
    have := (Outbox.Run.opened s body h).changed (.headed rfl)
    simpa using this
  cases hs with
  | unsent hst hp =>
    rw [Owed, hp, List.append_nil]
    exact h
  | spoiled s hb hst hp =>
    have hrun := hopened s
    rw [if_neg hb] at hrun
    rw [Owed, hp, outbox_append]
    simpa [StreamMark.outbox] using hrun.changed .refused
  | whole s hb hst hp =>
    rw [Owed, hp, outbox_append]
    simpa [StreamMark.outbox, PendingBody.entry, hb] using hopened s
  | waiting s hb hst hp =>
    rw [Owed, hp, outbox_append]
    simpa [StreamMark.outbox, PendingBody.entry, hb] using hopened s
  | part s n hb hst hp =>
    have hrun := hopened s
    rw [if_neg hb] at hrun
    have htook := hrun.changed (.took n rfl)
    rw [Owed, hp, ← List.singleton_append, ← List.append_assoc, outbox_append, outbox_append]
    split
    · rename_i hlt
      simpa [StreamMark.outbox, PendingBody.entry, hlt] using htook
    · rename_i hle
      simpa [StreamMark.outbox, PendingBody.entry, hle] using htook

theorem Owed.processed (h : c.Owed tr) {marks : List StreamMark}
    {r : Conn P × List ConnEvent} (hp : c.Processed check marks r) : r.1.Owed (tr ++ marks) := by
  cases hp with
  | cleared _ hp => exact h.cleared hp
  | unread _ hp =>
    rw [Owed, List.append_nil, hp]
    exact h
  | @read c₁ h3 start _ hp =>
    have hread : Owed tr
        ({ c₁ with h3 := some (P.pollAll h3 c₁.q).2.1, q := (P.pollAll h3 c₁.q).2.2 } : Conn P) := by
      rw [Owed, hp]
      exact h
    have hresumed := run_resume [] _ (P.pollAll h3 c₁.q).2.1 (c₁.polledQ h3)
      (hread.events check (P.pollAll h3 c₁.q).1.1)
    unfold readMarks readH3
    rw [← List.append_assoc (List.map _ _), ← List.append_assoc tr, ← List.append_assoc tr]
    split
    · rw [Owed, outbox_append]
      exact hresumed.cleared
    · rw [Owed, List.append_nil]
      exact hresumed

theorem Life.owed (h : Life check tr c) : c.Owed tr := by
  induction h with
  | new _ hp =>
    rw [Owed, hp]
    exact .nil
  | send headers kind body _ ih => exact ih.send (sends_trySend _ _ _ _)
  | process _ ih => exact ih.processed (processed_processConn _ _)
  | frame _ _ hp ih =>
    rw [Owed, hp]
    exact ih
  | clear _ _ hp ih => exact ih.cleared hp

/-! ### Every connection of a run has a life -/

/-- One step of a life. -/
inductive Evolves (check : Bool) (c c' : Conn P) : Prop
  | send (headers : List Header) (kind : ReqKind) (body : Body) :
      c'.streams = (c.trySend headers kind body).conn.streams →
      c'.pending = (c.trySend headers kind body).conn.pending → Evolves check c c'
  | process : c'.streams = (c.processConn check).1.streams →
      c'.pending = (c.processConn check).1.pending → Evolves check c c'
  | frame : c'.streams = c.streams → c'.pending = c.pending → Evolves check c c'
  | clear : c'.streams = ∅ → c'.pending = [] → Evolves check c c'

theorem Life.evolves (h : Life check tr c) (he : c.Evolves check c') : ∃ tr, c'.Life check tr := by
  cases he with
  | send headers kind body hs hp => exact ⟨_, (h.send headers kind body).frame hs hp⟩
  | process hs hp => exact ⟨_, h.process.frame hs hp⟩
  | frame hs hp => exact ⟨_, h.frame hs hp⟩
  | clear hs hp => exact ⟨_, h.clear hs hp⟩

end Conn

section

variable {w w' : Worker P} {check : Bool}

/-- Every connection of `w'` was in its slot before, or is new. -/
def Worker.Evolves (check : Bool) (w w' : Worker P) : Prop :=
  ∀ k c', w'.conn k = some c' → (∃ c, w.conn k = some c ∧ c.Evolves check c') ∨
    (c'.streams = ∅ ∧ c'.pending = [])

theorem Conn.Acts.evolves {t : Option Task} {k : ℕ} {c c' : Conn P} (h : c.Acts check t k c') :
    c.Evolves check c' := by
  cases h with
  | send headers kind body _ hl => exact .send headers kind body hl.streams hl.pending
  | read _ hl => exact .process hl.streams hl.pending
  | touch hs hp => exact .frame hs hp
  | clear hs hp => exact .clear hs hp

theorem Move.evolves {x x' : Mach P} {ins outs : Multiset Op} (m : Move x ins outs x') :
    x.w.Evolves x.w.cfg.check x'.w := by
  intro k c' hk
  rcases m.acts k c' hk with ⟨c, hc, ha⟩ | ⟨hs, hp, -⟩
  · exact .inl ⟨c, hc, ha.evolves⟩
  · exact .inr ⟨hs, hp⟩

/-- Every connection is at the end of a life. -/
def Mach.Lives (x : Mach P) : Prop :=
  ∀ i c, x.w.conn i = some c → ∃ tr, c.Life x.w.cfg.check tr

theorem kept_lives : Kept (fun _ => True) (Mach.Lives (P := P)) where
  new := fun cfg os now i c hc => by simp [Worker.new, Worker.conn] at hc
  move := by
    intro x ins outs x' m _ _ h i c' hc'
    rw [m.cfg]
    rcases m.evolves i c' hc' with ⟨c, hc, he⟩ | ⟨hs, hp⟩
    · obtain ⟨tr, hl⟩ := h i c hc
      exact hl.evolves he
    · exact ⟨[], .new hs hp⟩
  interfere := fun s _ h i c hc => h i c hc
  command := fun cmd _ _ _ _ h i c hc => h i c hc

theorem Thread.Reach.exists_life {cfg : EngineConfig} {t : Thread P} {i : ℕ} {c : Conn P}
    (h : t.Reach cfg) (hc : t.w.conn i = some c) : ∃ tr, c.Life cfg.check tr := by
  have hk := ((kept_lives.mono (fun _ _ => trivial)).reached h).2.1 i c hc
  rwa [h.cfg_eq] at hk

end

end Http3Bench
