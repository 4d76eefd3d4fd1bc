import Http3Bench.Outbox
import Http3Bench.Server.Clients

/-!
# Responses sent in pieces

`resumeMarks` writes down what `resume` meets on the way: the headers accepted, the bytes of the body,
a refusal. With these the responses a client still waits for are an outbox, whose messages are the
responses made.
-/

namespace Http3Bench.Server

variable {P : ServerPlatform}

def Pending.entry (p : Pending) : Outbox.Entry := ⟨p.stream, p.headers.isNone, p.body, p.off⟩

def bodyMarks (h : P.H3) (q : P.Q) (p : Pending) : List Outbox.Mark :=
  if p.body = [] then []
  else match (P.sendBody p.stream (p.body.drop p.off) true h q).1 with
    | .ok n => [.took p.stream ((p.body.drop p.off).take n)]
    | .error .done => []
    | .error _ => [.refused p.stream]

/-- What one `resume` meets. -/
def resumeMarks (h : P.H3) (q : P.Q) (p : Pending) : List Outbox.Mark :=
  match p.headers with
  | none => bodyMarks h q p
  | some headers =>
    let a := P.sendResponse p.stream headers p.body.isEmpty h q
    match a.1 with
    | .ok () => .headed p.stream :: bodyMarks a.2.1 a.2.2 { p with headers := none }
    | .error .streamBlocked => []
    | .error _ => [.refused p.stream]

/-- What one pass over the pending responses meets. -/
def resumeAllMarks (h : P.H3) (q : P.Q) : List Pending → List Outbox.Mark
  | [] => []
  | p :: rest => resumeMarks h q p ++ resumeAllMarks (resume h q p).h3 (resume h q p).conn rest

namespace Client

/-- What one event of `h3.poll` meets. -/
def eventMarks (c : Client P) (h : P.H3) : ℕ × H3Event → List Outbox.Mark
  | (sid, .finished) => match c.reqs.lookup sid with
    | some r => .opened sid r.response.body ::
        resumeMarks h c.conn ⟨sid, some r.response.headers, r.response.body, 0⟩
    | none => []
  | (sid, .reset _) => [.reset sid]
  | _ => []

/-- What the loop over the pending responses meets. -/
def resumedMarks (c : Client P) : List Outbox.Mark :=
  match c.h3 with
  | none => []
  | some h => resumeAllMarks h c.conn c.pending

inductive Life : List Outbox.Mark → Client P → Prop
  | new (q : P.Q) (s : ℕ) (ids : List ConnectionId) : Life [] { conn := q, sock := s, ids := ids }
  | frame {tr : List Outbox.Mark} {c : Client P} (q : P.Q) (h : Option P.H3) (d t : Option Instant)
      (b : Bool) : Life tr c →
      Life tr { c with conn := q, h3 := h, deadline := d, scheduled := t, dirty := b }
  | event {tr : List Outbox.Mark} {c : Client P} (h : P.H3) (ev : ℕ × H3Event) : Life tr c →
      Life (tr ++ c.eventMarks h ev) (c.onEvent h ev)
  | resumed {tr : List Outbox.Mark} {c : Client P} : Life tr c →
      Life (tr ++ c.resumedMarks) c.resumed

end Client

/-! ### One response -/

/-- What `resume` leaves in the list. -/
def Resumed.left (r : Resumed P) : List Pending := if r.keep then [r.pending] else []

section

variable {tr : List Outbox.Mark} {l r : List Outbox.Entry} {p : Pending}

theorem run_resumeBody (h : P.H3) (q : P.Q) (hp : p.headers = none) (hb : p.body ≠ [])
    (hr : Outbox.Run tr (l ++ p.entry :: r)) :
    Outbox.Run (tr ++ bodyMarks h q p)
      (l ++ ((resumeBody h q p).left.map Pending.entry ++ r)) := by
  unfold bodyMarks resumeBody Resumed.left
  rw [if_neg hb, if_neg hb]
  rcases hs : P.sendBody p.stream (p.body.drop p.off) true h q with ⟨e | n, h', q'⟩
  · cases e with
    | done => simpa using hr
    | _ => simpa [Pending.entry] using hr.changed .refused
  · have htook := hr.changed (.took n (by simp [Pending.entry, hp]))
    by_cases hlt : p.off + n < p.body.length
    · simpa [Pending.entry, hlt] using htook
    · simpa [Pending.entry, hlt] using htook

theorem run_resume (h : P.H3) (q : P.Q) (hb : p.headers = none → p.body ≠ [])
    (hr : Outbox.Run tr (l ++ p.entry :: r)) :
    Outbox.Run (tr ++ resumeMarks h q p) (l ++ ((resume h q p).left.map Pending.entry ++ r)) := by
  unfold resumeMarks resume
  cases hh : p.headers with
  | none => exact run_resumeBody h q hh (hb hh) hr
  | some headers =>
    dsimp only
    rcases hs : P.sendResponse p.stream headers p.body.isEmpty h q with ⟨e | u, h', q'⟩
    · cases e with
      | streamBlocked => simpa [Resumed.left] using hr
      | _ => simpa [Pending.entry, Resumed.left] using hr.changed .refused
    · have hhead := hr.changed (.headed (by simp [Pending.entry, hh]))
      dsimp only
      rw [List.append_cons]
      by_cases hnil : p.body = []
      · simpa [Pending.entry, Resumed.left, resumeBody, bodyMarks, hnil] using hhead
      · refine run_resumeBody h' q' rfl hnil ?_
        simpa [Pending.entry, hnil] using hhead

end

theorem pending_resumeAll (h : P.H3) (q : P.Q) (p : Pending) (ps : List Pending) :
    (resumeAll h q (p :: ps)).2.2 = (resume h q p).left ++
      (resumeAll (resume h q p).h3 (resume h q p).conn ps).2.2 := by
  rw [resumeAll, Resumed.left]
  split <;> rfl

/-- One pass over the pending responses, those before it already resumed. -/
theorem run_resumeAll {tr : List Outbox.Mark} (sent ps : List Pending) (h : P.H3) (q : P.Q)
    (hr : Outbox.Run tr ((sent ++ ps).map Pending.entry)) :
    Outbox.Run (tr ++ resumeAllMarks h q ps)
      ((sent ++ (resumeAll h q ps).2.2).map Pending.entry) := by
  induction ps generalizing tr sent h q with
  | nil => simpa [resumeAllMarks, resumeAll] using hr
  | cons p ps ih =>
    have hb : p.headers = none → p.body ≠ [] := fun hh =>
      hr.body_ne_nil p.entry (by simp) (by simp [Pending.entry, hh])
    have hr' : Outbox.Run tr (sent.map Pending.entry ++ p.entry :: ps.map Pending.entry) := by
      simpa using hr
    rw [resumeAllMarks, ← List.append_assoc, pending_resumeAll, ← List.append_assoc]
    exact ih _ _ _ (by simpa using run_resume h q hb hr')

/-- Sending responses on opens no message. -/
theorem messages_resumeBody (h : P.H3) (q : P.Q) (p : Pending) :
    Outbox.messages (bodyMarks h q p) = [] := by
  unfold bodyMarks
  split
  · rfl
  · rcases P.sendBody p.stream (p.body.drop p.off) true h q with ⟨e | n, h', q'⟩
    · cases e <;> rfl
    · rfl

theorem messages_resume (h : P.H3) (q : P.Q) (p : Pending) :
    Outbox.messages (resumeMarks h q p) = [] := by
  unfold resumeMarks
  cases p.headers with
  | none => exact messages_resumeBody h q p
  | some headers =>
    dsimp only
    rcases P.sendResponse p.stream headers p.body.isEmpty h q with ⟨e | u, h', q'⟩
    · cases e <;> rfl
    · exact messages_resumeBody h' q' { p with headers := none }

theorem messages_resumeAll (h : P.H3) (q : P.Q) (ps : List Pending) :
    Outbox.messages (resumeAllMarks h q ps) = [] := by
  induction ps generalizing h q with
  | nil => rfl
  | cons p ps ih => rw [resumeAllMarks, Outbox.messages_append, messages_resume, ih, List.append_nil]

namespace Client

variable {tr : List Outbox.Mark} {c : Client P}

theorem pending_respond (c : Client P) (h : P.H3) (sid : ℕ) (r : Response) :
    (c.respond h sid r).pending =
      c.pending ++ (resume h c.conn ⟨sid, some r.headers, r.body, 0⟩).left := by
  unfold respond Resumed.left
  dsimp only
  split
  · rfl
  · rw [List.append_nil]

theorem answered_respond (c : Client P) (h : P.H3) (sid : ℕ) (r : Response) :
    (c.respond h sid r).answered = c.answered ++ [(sid, r)] := rfl

theorem Life.run (h : Life tr c) : Outbox.Run tr (c.pending.map Pending.entry) := by
  induction h with
  | new => exact .nil
  | frame q h d t b _ ih => exact ih
  | @event tr c h ev _ ih =>
    obtain ⟨sid, ev⟩ := ev
    cases ev with
    | finished =>
      unfold onEvent eventMarks
      dsimp only
      cases c.reqs.lookup sid with
      | none => simpa using ih
      | some r =>
        have hopened := Outbox.Run.opened sid r.response.body ih
        have hrun := run_resume (p := ⟨sid, some r.response.headers, r.response.body, 0⟩) h c.conn
          (fun hh => (by cases hh)) hopened
        rw [pending_respond, List.append_cons, List.map_append]
        simpa using hrun
    | reset code =>
      have hreset := Outbox.Run.reset sid ih
      rwa [List.filter_map] at hreset
    | data reads =>
      unfold onEvent eventMarks
      dsimp only
      split <;> simpa using ih
    | _ => simpa [onEvent, eventMarks] using ih
  | @resumed tr c _ ih =>
    unfold Client.resumed resumedMarks
    cases c.h3 with
    | none => simpa using ih
    | some h => exact run_resumeAll [] c.pending h c.conn ih

/-- The messages of the outbox are the bodies of the responses made. -/
theorem Life.messages (h : Life tr c) :
    Outbox.messages tr = c.answered.map (fun a => (a.1, a.2.body)) := by
  induction h with
  | new => rfl
  | frame q h d t b _ ih => exact ih
  | @event tr c h ev _ ih =>
    rw [Outbox.messages_append, ih]
    obtain ⟨sid, ev⟩ := ev
    cases ev with
    | finished =>
      unfold onEvent eventMarks
      dsimp only
      cases c.reqs.lookup sid with
      | none => exact List.append_nil _
      | some r =>
        dsimp only
        rw [answered_respond, List.map_append]
        refine congrArg _ (congrArg ((sid, r.response.body) :: ·) ?_)
        exact messages_resume h c.conn ⟨sid, some r.response.headers, r.response.body, 0⟩
    | data reads =>
      unfold onEvent eventMarks
      dsimp only
      split <;> exact List.append_nil _
    | _ => exact List.append_nil _
  | @resumed tr c _ ih =>
    rw [Outbox.messages_append, ih]
    unfold Client.resumed resumedMarks
    cases c.h3 with
    | none => exact List.append_nil _
    | some h =>
      dsimp only
      rw [messages_resumeAll, List.append_nil]

/-- The streams that have ended. -/
def finished (c : Client P) : List ℕ :=
  (c.seen.filter (fun e => e.2 = .finished)).map Prod.fst

/-- A stream is answered when it ends. -/
theorem kept_answered :
    Client.Kept (fun c : Client P => (c.answered.map Prod.fst).Sublist c.finished) where
  new := fun _ _ _ => .refl _
  frame := fun _ _ _ _ _ _ hc => hc
  event := by
    intro c h ev hc
    unfold finished
    rw [seen_onEvent, List.filter_append, List.map_append]
    obtain ⟨sid, ev⟩ := ev
    cases ev with
    | finished =>
      unfold onEvent
      dsimp only
      split
      · rw [answered_respond, List.map_append]
        exact hc.append (by simp)
      · exact hc.trans (List.sublist_append_left _ _)
    | data reads =>
      unfold onEvent
      dsimp only
      split <;> exact hc.trans (List.sublist_append_left _ _)
    | _ => exact hc.trans (List.sublist_append_left _ _)
  resumed := by
    intro c hc
    unfold resumed
    split <;> exact hc

end Client

end Http3Bench.Server
