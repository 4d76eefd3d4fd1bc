import Http3Bench.Server.Handover

/-!
# What the server answers

The requests of a connection arrive interleaved and in pieces. What becomes of one stream depends
only on its own events: `Stream.run` is one stream by itself, and every client of a reachable worker
has for each of its streams the request and the answers that the stream alone would have. What is
handed to quiche on a stream is its answer, as far as it has got (`Client.Handing`).
-/

namespace Http3Bench.Server

variable {P : ServerPlatform}

/-- Events that belong to a request. -/
def isRequest : H3Event → Bool
  | .goAway | .priorityUpdate => false
  | _ => true

/-- The events of the request on stream `sid`. -/
def eventsOf (sid : ℕ) (evs : List (ℕ × H3Event)) : List H3Event :=
  (evs.filter (fun e => e.1 = sid ∧ isRequest e.2)).map Prod.snd

/-- The responses made on stream `sid`. -/
def answersOf (sid : ℕ) (answers : List (ℕ × Response)) : List Response :=
  (answers.filter (fun a => a.1 = sid)).map Prod.snd

structure Stream where
  req : Option Req := none
  answers : List Response := []

namespace Stream

def step (s : Stream) : H3Event → Stream
  | .headers list => { s with req := some { echo := echoOf list } }
  | .data reads => { s with req := s.req.map (fun r => reads.foldl Req.read r) }
  | .finished => ⟨none, s.answers ++ (s.req.map Req.response).toList⟩
  | .reset _ => { s with req := none }
  | .goAway | .priorityUpdate => s

def run (evs : List H3Event) : Stream := evs.foldl step {}

theorem run_append (evs : List H3Event) (ev : H3Event) : run (evs ++ [ev]) = (run evs).step ev := by
  simp [run]

end Stream

/-- The `:path` of a request; the last one counts. -/
def pathOf (list : List Header) : Option Body :=
  ((list.filter (fun h => h.1 = pathName)).getLast?).map Prod.snd

/-- The answer to a request for `path` with the body `b`. -/
def answer (path : Option Body) (b : Body) : Response :=
  if maxBody < b.length then ⟨413, "text/plain; charset=utf-8", text "request body too large\n"⟩
  else if path = some echoPath then ⟨200, "application/octet-stream", b⟩
  else ⟨404, "text/plain; charset=utf-8", text "404 page not found\n"⟩

theorem eventsOf_append (sid : ℕ) (evs : List (ℕ × H3Event)) (ev : ℕ × H3Event) :
    eventsOf sid (evs ++ [ev]) =
      if ev.1 = sid ∧ isRequest ev.2 then eventsOf sid evs ++ [ev.2] else eventsOf sid evs := by
  unfold eventsOf
  rw [List.filter_append, List.map_append]
  split <;> simp [*]

theorem answersOf_append (sid k : ℕ) (answers : List (ℕ × Response)) (r : Response) :
    answersOf sid (answers ++ [(k, r)]) =
      if k = sid then answersOf sid answers ++ [r] else answersOf sid answers := by
  unfold answersOf
  rw [List.filter_append, List.map_append]
  split <;> simp [*]

/-- The request and the answers of every stream are those it would have alone. -/
def Client.Served (c : Client P) : Prop :=
  ∀ sid, c.reqs.lookup sid = (Stream.run (eventsOf sid c.seen)).req ∧
    answersOf sid c.answered = (Stream.run (eventsOf sid c.seen)).answers

/-- One event, which is one of its own stream and of no other. -/
theorem Client.Served.event {c : Client P} (hc : c.Served) (h : P.H3) (ev : ℕ × H3Event) :
    (c.onEvent h ev).Served := by
  intro sid
  obtain ⟨k, ev⟩ := ev
  have hs := hc sid
  rw [c.seen_onEvent, eventsOf_append]
  by_cases hk : k = sid
  · subst hk
    cases ev with
    | headers list =>
      simp only [isRequest, and_self, if_true, Stream.run_append, Stream.step]
      exact ⟨AList.lookup_insert _, hs.2⟩
    | data reads =>
      simp only [isRequest, and_self, if_true, Stream.run_append, Stream.step]
      simp only [onEvent]
      cases hr : c.reqs.lookup k with
      | none =>
        rw [← hs.1, hr]
        exact ⟨rfl, hs.2⟩
      | some r =>
        rw [← hs.1, hr]
        exact ⟨AList.lookup_insert _, hs.2⟩
    | finished =>
      simp only [isRequest, and_self, if_true, Stream.run_append, Stream.step]
      simp only [onEvent]
      cases hr : c.reqs.lookup k with
      | none =>
        rw [← hs.1, hr]
        exact ⟨rfl, by simpa using hs.2⟩
      | some r =>
        rw [← hs.1, hr]
        refine ⟨AList.lookup_erase _ _, ?_⟩
        simp only [respond, answersOf_append, if_true, hs.2]
        rfl
    | reset code =>
      simp only [isRequest, and_self, if_true, Stream.run_append, Stream.step]
      exact ⟨AList.lookup_erase _ _, hs.2⟩
    | goAway =>
      rw [if_neg (by simp [isRequest])]
      exact hs
    | priorityUpdate =>
      rw [if_neg (by simp [isRequest])]
      exact hs
  · rw [if_neg (by simp [hk])]
    cases ev with
    | headers list => exact ⟨(AList.lookup_insert_ne (Ne.symm hk)).trans hs.1, hs.2⟩
    | data reads =>
      simp only [onEvent]
      split
      · exact ⟨(AList.lookup_insert_ne (Ne.symm hk)).trans hs.1, hs.2⟩
      · exact hs
    | finished =>
      simp only [onEvent]
      split
      · refine ⟨(AList.lookup_erase_ne (Ne.symm hk)).trans hs.1, ?_⟩
        simp only [respond, answersOf_append, if_neg hk]
        exact hs.2
      · exact hs
    | reset code => exact ⟨(AList.lookup_erase_ne (Ne.symm hk)).trans hs.1, hs.2⟩
    | goAway => exact hs
    | priorityUpdate => exact hs

theorem kept_served : Client.Kept (Client.Served (P := P)) where
  new := fun _ _ _ _ => ⟨rfl, rfl⟩
  frame := fun _ _ _ _ _ _ hc => hc
  event := fun _ h ev hc => hc.event h ev
  resumed := fun c hc => by
    unfold Client.resumed
    split <;> exact hc

theorem echoOf_eq (list : List Header) : echoOf list = decide (pathOf list = some echoPath) := by
  unfold echoOf pathOf
  induction list using List.reverseRecOn with
  | nil => rfl
  | append_singleton list h ih =>
    rw [List.foldl_append, List.foldl_cons, List.foldl_nil, List.filter_append]
    by_cases hp : h.1 = pathName
    · simp [hp]
    · simp [hp, ih]

/-- How far a request has got once `b` has been read of its body. -/
structure Req.Has (r : Req) (echo : Bool) (b : Body) : Prop where
  echo_eq : r.echo = echo
  whole : r.tooLarge = false → r.body = b ∧ b.length ≤ maxBody
  excess : r.tooLarge = true → maxBody < b.length

theorem Req.Has.read {r : Req} {echo : Bool} {b : Body} (h : r.Has echo b) (buf : Body) :
    (r.read buf).Has echo (b ++ buf) := by
  unfold Req.read
  cases hl : r.tooLarge with
  | false =>
    obtain ⟨hb, hle⟩ := h.whole hl
    split
    · refine ⟨h.echo_eq, fun h' => (by cases h'), fun _ => ?_⟩
      rw [List.length_append, ← hb]
      omega
    · simp only [Bool.false_eq_true, if_false]
      refine ⟨h.echo_eq, fun _ => ⟨by rw [hb], ?_⟩, fun h' => by simp at h'⟩
      rw [List.length_append, ← hb]
      omega
  | true =>
    have hlt : maxBody < (b ++ buf).length := by
      have := h.excess hl
      rw [List.length_append]
      omega
    split
    · exact ⟨h.echo_eq, fun h' => (by cases h'), fun _ => hlt⟩
    · simp only [if_true]
      exact ⟨h.echo_eq, fun h' => by simp [hl] at h', fun _ => hlt⟩

theorem Req.Has.reads {r : Req} {echo : Bool} {b : Body} (h : r.Has echo b) (reads : List Body) :
    (reads.foldl Req.read r).Has echo (b ++ reads.flatten) := by
  induction reads generalizing r b with
  | nil => simpa using h
  | cons buf rest ih =>
    rw [List.foldl_cons, List.flatten_cons, ← List.append_assoc]
    exact ih (h.read buf)

theorem Req.Has.response {r : Req} {path : Option Body} {b : Body}
    (h : r.Has (decide (path = some echoPath)) b) : r.response = answer path b := by
  unfold Req.response answer
  cases hl : r.tooLarge with
  | true => rw [if_pos rfl, if_pos (h.excess hl)]
  | false =>
    obtain ⟨hb, hle⟩ := h.whole hl
    have hno : ¬ maxBody < b.length := by omega
    simp [h.echo_eq, hb, hno]

/-- The request of a stream while its body arrives, in whatever pieces. -/
theorem Stream.run_body (list : List Header) (datas : List (List Body)) :
    ∃ r : Req, Stream.run (.headers list :: datas.map .data) = ⟨some r, []⟩ ∧
      r.Has (decide (pathOf list = some echoPath)) datas.flatten.flatten := by
  induction datas using List.reverseRecOn with
  | nil =>
    refine ⟨{ echo := echoOf list }, rfl, echoOf_eq list, fun _ => ⟨rfl, Nat.zero_le _⟩, ?_⟩
    intro h
    cases h
  | append_singleton datas reads ih =>
    obtain ⟨r, hrun, hr⟩ := ih
    refine ⟨reads.foldl Req.read r, ?_, ?_⟩
    · rw [List.map_append, ← List.cons_append, List.map_singleton, Stream.run_append, hrun]
      rfl
    · rw [List.flatten_append, List.flatten_append]
      simpa using hr.reads reads

/-- The whole of a request, and its answer. -/
theorem Stream.run_request (list : List Header) (datas : List (List Body)) :
    Stream.run (.headers list :: datas.map .data ++ [.finished]) =
      ⟨none, [answer (pathOf list) datas.flatten.flatten]⟩ := by
  obtain ⟨r, hrun, hr⟩ := Stream.run_body list datas
  rw [Stream.run_append, hrun, ← hr.response]
  rfl

theorem Stream.answers_before {evs : List H3Event} (h : .finished ∉ evs) :
    (Stream.run evs).answers = [] := by
  induction evs using List.reverseRecOn with
  | nil => rfl
  | append_singleton evs ev ih =>
    rw [List.mem_append, not_or] at h
    rw [Stream.run_append]
    cases ev with
    | finished => simp at h
    | _ => exact ih h.1

theorem Stream.run_after_reset {before : List H3Event} (h : .finished ∉ before) (code : ℕ)
    {after : List H3Event} (ha : ∀ list, .headers list ∉ after) :
    Stream.run (before ++ .reset code :: after) = {} := by
  induction after using List.reverseRecOn with
  | nil =>
    rw [Stream.run_append]
    simp only [Stream.step, Stream.answers_before h]
  | append_singleton after ev ih =>
    have hev : ∀ list, ev ≠ .headers list := fun list he => ha list (by simp [he])
    rw [← List.cons_append, ← List.append_assoc, Stream.run_append,
      ih (fun list hm => ha list (List.mem_append_left _ hm))]
    cases ev with
    | headers list => exact absurd rfl (hev list)
    | _ => rfl

/-- What the calls on a stream and its entry in the list are to be, by its answers: nothing without
an answer, and the only answer on its way unless the stream was reset. -/
def Handing (sid : ℕ) (evs : List H3Event) (calls : List SendCall) (pending : List Pending) :
    List Response → Prop
  | [] => calls = [] ∧ pending = []
  | [r] => (∃ code, .reset code ∈ evs) ∨ Delivers sid r calls pending
  | _ => True

theorem Handing.mono {sid : ℕ} {evs evs' : List H3Event} {calls : List SendCall}
    {pending : List Pending} {answers : List Response} (h : Handing sid evs calls pending answers)
    (hsub : ∀ ev ∈ evs, ev ∈ evs') : Handing sid evs' calls pending answers := by
  match answers with
  | [] => exact h
  | [r] => exact h.imp_left (fun hreset => hreset.imp (fun code hcode => hsub _ hcode))
  | _ :: _ :: _ => trivial

theorem Handing.reset {sid : ℕ} {evs : List H3Event} {calls : List SendCall}
    {pending : List Pending} {answers : List Response} (h : Handing sid evs calls pending answers)
    {code : ℕ} (hcode : .reset code ∈ evs) : Handing sid evs calls [] answers := by
  match answers with
  | [] => exact ⟨h.1, rfl⟩
  | [r] => exact .inl ⟨code, hcode⟩
  | _ :: _ :: _ => trivial

def Client.Hands (c : Client P.recorded) : Prop :=
  ∀ sid, Handing sid (eventsOf sid c.seen) (SendCall.on sid c.calls) (pendingOn sid c.pending)
    (answersOf sid c.answered)

theorem eventsOf_subset (sid : ℕ) (evs : List (ℕ × H3Event)) (ev : ℕ × H3Event) :
    ∀ e ∈ eventsOf sid evs, e ∈ eventsOf sid (evs ++ [ev]) := by
  intro e he
  rw [eventsOf_append]
  split
  · exact List.mem_append_left _ he
  · exact he

/-- One event, on the HTTP/3 connection with the calls made so far. -/
theorem Client.Hands.event {c : Client P.recorded} (hc : c.Hands) {h : P.recorded.H3}
    (hh : c.calls = h.2) (ev : ℕ × H3Event) : (c.onEvent h ev).Hands := by
  intro sid
  have hold : Handing sid (eventsOf sid (c.seen ++ [ev])) (SendCall.on sid h.2)
      (pendingOn sid c.pending) (answersOf sid c.answered) := by
    rw [← hh]
    exact (hc sid).mono (eventsOf_subset sid c.seen ev)
  rw [c.seen_onEvent]
  obtain ⟨k, ev⟩ := ev
  cases ev with
  | data reads =>
    unfold onEvent
    dsimp only
    split <;> exact hold
  | finished =>
    unfold onEvent
    dsimp only
    cases c.reqs.lookup k with
    | none => exact hold
    | some req =>
      have hown := stream_resume h c.conn ⟨k, some req.response.headers, req.response.body, 0⟩
      obtain ⟨cs, hcs, hnew⟩ :=
        hands_resume h c.conn ⟨k, some req.response.headers, req.response.body, 0⟩
      have hcalls : Client.calls (P := P) (respond { c with
          h3 := some h
          seen := c.seen ++ [(k, .finished)]
          reqs := c.reqs.erase k } h k req.response) = h.2 ++ cs := hcs.calls
      dsimp only
      rw [hcalls, answered_respond, pending_respond, answersOf_append, SendCall.on_append,
        pendingOn_append]
      dsimp only
      by_cases hk : k = sid
      · subst hk
        rw [if_pos rfl, on_eq_self hcs.stream, pendingOn_eq_self hown]
        cases ha : answersOf k c.answered with
        | nil =>
          rw [ha] at hold
          obtain ⟨hcalls, hpending⟩ := hold
          rw [hcalls, hpending]
          exact .inr (hnew _ [] .nil (.headers (List.forall_mem_nil _) rfl))
        | cons r rest =>
          cases rest with
          | nil => trivial
          | cons r' rest => trivial
      · have hother : ∀ p ∈ (resume h c.conn
            ⟨k, some req.response.headers, req.response.body, 0⟩).left, p.stream ≠ sid :=
          fun p hp heq => hk ((hown p hp).symm.trans heq)
        rw [if_neg hk, on_eq_nil hcs.stream hk, pendingOn_eq_nil hother, List.append_nil,
          List.append_nil]
        exact hold
  | reset code =>
    have hcalls : (c.onEvent h (k, .reset code)).calls = h.2 := rfl
    rw [hcalls]
    change Handing sid _ _ (pendingOn sid (c.pending.filter (fun p => p.stream ≠ k)))
      (answersOf sid c.answered)
    rw [pendingOn_filter_ne]
    by_cases hk : k = sid
    · subst hk
      rw [if_pos rfl]
      have hcode : .reset code ∈ eventsOf k (c.seen ++ [(k, .reset code)]) := by
        rw [eventsOf_append, if_pos ⟨rfl, rfl⟩]
        exact List.mem_append_right _ (List.mem_singleton_self _)
      exact hold.reset hcode
    · rw [if_neg hk]
      exact hold
  | _ => exact hold

theorem lasts_hands : Client.Lasts (Client.Hands (P := P)) where
  new := fun _ _ _ _ => ⟨rfl, rfl⟩
  frame := fun _ _ _ _ _ hc => hc
  setup := by
    intro c hc sid
    have h := hc sid
    rw [← c.calls_setup] at h
    unfold Client.setup at h ⊢
    split
    · rename_i hif
      rw [if_pos hif] at h
      exact h
    · exact hc sid
  idle := fun c h hh _ hc sid => by
    have h := hc sid
    rw [Client.calls_of_some hh] at h
    exact h
  event := by
    intro c h ev hh _ hc
    have hcalls := Client.calls_of_some hh
    exact Client.Hands.event (c := { c with conn := (P.recorded.poll h c.conn).2.2 })
      (h := (P.recorded.poll h c.conn).2.1) hc hcalls ev
  resumed := by
    intro c hc
    unfold Client.resumed
    rcases Option.eq_none_or_eq_some c.h3 with hh | ⟨h, hh⟩
    · simpa only [hh] using hc
    · simp only [hh]
      intro sid
      obtain ⟨cs, hcs, -, hrest⟩ := hands_resumeAll h c.conn c.pending
      have hold := hc sid
      rw [Client.calls_of_some hh] at hold
      have hcalls : Client.calls (P := P) { c with
          h3 := some (resumeAll h c.conn c.pending).1
          conn := (resumeAll h c.conn c.pending).2.1
          pending := (resumeAll h c.conn c.pending).2.2 } = h.2 ++ cs := hcs
      rw [hcalls, SendCall.on_append]
      dsimp only
      cases ha : answersOf sid c.answered with
      | nil =>
        rw [ha] at hold
        obtain ⟨hnone, hpending⟩ := (hrest sid).1 hold.2
        exact ⟨by rw [hold.1, hnone, List.append_nil], hpending⟩
      | cons r rest =>
        cases rest with
        | nil =>
          rw [ha] at hold
          exact hold.imp_right ((hrest sid).2 r _)
        | cons r' rest => trivial

/-- The answer to a request that has arrived whole is on its way. -/
theorem Worker.Reach.delivers {w : Worker P.recorded} {i : ℕ} {c : Client P.recorded} (h : w.Reach)
    (hc : w.client i = some c) {sid : ℕ} {list : List Header} {datas : List (List Body)}
    (hevs : eventsOf sid c.seen = .headers list :: datas.map .data ++ [.finished]) :
    answersOf sid c.answered = [answer (pathOf list) datas.flatten.flatten] ∧
      Delivers sid (answer (pathOf list) datas.flatten.flatten) (SendCall.on sid c.calls)
        (pendingOn sid c.pending) := by
  have hs := (h.forall_clients kept_served hc sid).2
  have hhands := h.forall_lasts lasts_hands hc sid
  rw [hevs, Stream.run_request] at hs
  rw [hs, hevs] at hhands
  refine ⟨hs, hhands.resolve_left ?_⟩
  rintro ⟨code, hcode⟩
  simp at hcode

/-- On every connection of a reachable worker, a request that has arrived whole is answered once, by
its path and its body alone, and one that was reset before is not answered. The answer is what is
handed to quiche on the stream, in calls on the HTTP/3 connection the client goes on with. -/
theorem echo_answers {w : Worker P.recorded} {i : ℕ} {c : Client P.recorded} (h : w.Reach)
    (hc : w.client i = some c) (sid : ℕ) :
    (∀ (list : List Header) (datas : List (List Body)),
      eventsOf sid c.seen = .headers list :: datas.map .data ++ [.finished] →
      ∀ r, r = answer (pathOf list) datas.flatten.flatten → answersOf sid c.answered = [r] ∧
        Delivers sid r (SendCall.on sid c.calls) (pendingOn sid c.pending) ∧
        r.headers = [(text ":status", text (toString r.status)), (text "content-type", text r.ctype),
          (text "content-length", text (toString r.body.length))]) ∧
    ∀ before code after, eventsOf sid c.seen = before ++ .reset code :: after → .finished ∉ before →
      (∀ list, .headers list ∉ after) → answersOf sid c.answered = [] ∧
        SendCall.on sid c.calls = [] ∧ pendingOn sid c.pending = [] := by
  refine ⟨fun list datas hevs r hr => ?_, fun before code after hevs hb ha => ?_⟩
  · obtain ⟨hs, hd⟩ := h.delivers hc hevs
    rw [← hr] at hs hd
    exact ⟨hs, hd, rfl⟩
  · have hs := (h.forall_clients kept_served hc sid).2
    have hhands := h.forall_lasts lasts_hands hc sid
    rw [hevs, Stream.run_after_reset hb code ha] at hs
    rw [hs] at hhands
    exact ⟨hs, hhands⟩

/-- A request for `/echo`, between the pieces of one for another path; with trailers if the datagram
says so. -/
def interleaved (data : Body) : List (ℕ × H3Event) :=
  [(0, .headers [(pathName, echoPath)]), (4, .headers [(pathName, [])]), (0, .data [[7], [8]]),
    (4, .data [[9]]), (0, .data []), (4, .finished)] ++
    (if data = [1] then [(0, .headers [([120], [121])])] else []) ++ [(0, .finished)]

/-- A platform on which the first response is blocked and a body is taken byte by byte. -/
def narrow (events : Body → List (ℕ × H3Event)) : ServerPlatform :=
  { scripted events with
    H3 := ℕ
    withTransport := fun q => (some 0, q)
    ready := fun _ q => q.length
    poll := fun h q => (q.head?, h, q.tail)
    sendResponse := fun _ _ _ h q => (if h = 0 then .error .streamBlocked else .ok (), h + 1, q)
    sendBody := fun _ _ _ h q => (.ok 1, h + 1, q) }

/-- The answer to the request for `/echo` is out in two pieces, that to the other one, which was
blocked, is on its way. -/
theorem echo_answers_interleaved : ∃ (w : Worker (narrow interleaved).recorded) (c : Client _),
    w.Reach ∧ w.client 0 = some c ∧ answersOf 0 c.answered = [answer (some echoPath) [7, 8]] ∧
    Delivers 0 (answer (some echoPath) [7, 8]) (SendCall.on 0 c.calls) (pendingOn 0 c.pending) ∧
    SendCall.on 0 c.calls = [.response 0 (answer (some echoPath) [7, 8]).headers false (.ok ()),
      .body 0 [7, 8] true (.ok 1), .body 0 [8] true (.ok 1)] ∧
    Delivers 4 (answer (some []) [9]) (SendCall.on 4 c.calls) (pendingOn 4 c.pending) ∧
    SendCall.on 4 c.calls = [.response 4 (answer (some []) [9]).headers false (.error .streamBlocked),
      .response 4 (answer (some []) [9]).headers false (.ok ()),
      .body 4 (text "404 page not found\n") true (.ok 1)] := by
  obtain ⟨w, hw, hp⟩ := Worker.exists_reach (P := (narrow interleaved).recorded) (0 : ℕ) [[1, 7]]
    (fun w => (w.client 0).any (fun c => eventsOf 0 c.seen =
        [.headers [(pathName, echoPath)], .data [[7], [8]], .data [], .finished] ∧
      eventsOf 4 c.seen = [.headers [(pathName, [])], .data [[9]], .finished] ∧
      SendCall.on 0 c.calls = [.response 0 (answer (some echoPath) [7, 8]).headers false (.ok ()),
        .body 0 [7, 8] true (.ok 1), .body 0 [8] true (.ok 1)] ∧
      SendCall.on 4 c.calls =
        [.response 4 (answer (some []) [9]).headers false (.error .streamBlocked),
          .response 4 (answer (some []) [9]).headers false (.ok ()),
          .body 4 (text "404 page not found\n") true (.ok 1)])) (by decide +kernel)
  obtain ⟨c, hc, hevs⟩ := (Option.any_eq_true ..).mp hp
  obtain ⟨h₀, h₄, hcalls₀, hcalls₄⟩ := of_decide_eq_true hevs
  obtain ⟨ha, hd, -⟩ := (echo_answers hw hc 0).1 [(pathName, echoPath)] [[[7], [8]], []] h₀ _ rfl
  obtain ⟨-, hd', -⟩ := (echo_answers hw hc 4).1 [(pathName, [])] [[[9]]] h₄ _ rfl
  exact ⟨w, c, hw, hc, ha, hd, hcalls₀, hd', hcalls₄⟩

/-- A stream with trailers before its end. -/
theorem Stream.run_trailers (list trailers : List Header) (datas : List (List Body))
    (ht : ∀ h ∈ trailers, h.1.head? ≠ some 58) :
    Stream.run (.headers list :: datas.map .data ++ [.headers trailers, .finished]) =
      ⟨none, [answer none []]⟩ := by
  obtain ⟨r, hrun, _⟩ := Stream.run_body list datas
  have hpath : pathOf trailers = none := by
    unfold pathOf
    rw [List.filter_eq_nil_iff.mpr, List.getLast?_nil, Option.map_none]
    intro h hm hp
    exact ht h hm (by rw [of_decide_eq_true hp]; decide)
  have hr : ({ echo := echoOf trailers } : Req).Has (decide ((none : Option Body) = some echoPath)) [] :=
    ⟨by rw [echoOf_eq, hpath], fun _ => ⟨rfl, Nat.zero_le _⟩, fun h => by cases h⟩
  rw [List.append_cons, Stream.run_append, Stream.run_append, hrun, ← hr.response]
  rfl

/-- A request with trailers is answered as it is without them exactly if it is for another path than
`/echo` and its body is not too large: the trailers take the place of the request. -/
theorem trailers_answer {w w' : Worker P} {i i' : ℕ} {c c' : Client P} (h : w.Reach)
    (hc : w.client i = some c) (h' : w'.Reach) (hc' : w'.client i' = some c') (sid sid' : ℕ)
    (list trailers : List Header) (datas : List (List Body))
    (ht : ∀ h ∈ trailers, h.1.head? ≠ some 58)
    (hevs : eventsOf sid c.seen = .headers list :: datas.map .data ++ [.finished])
    (hevs' : eventsOf sid' c'.seen =
      .headers list :: datas.map .data ++ [.headers trailers, .finished]) :
    answersOf sid' c'.answered = answersOf sid c.answered ↔
      pathOf list ≠ some echoPath ∧ datas.flatten.flatten.length ≤ maxBody := by
  rw [(h.forall_clients kept_served hc sid).2, (h'.forall_clients kept_served hc' sid').2, hevs, hevs',
    Stream.run_request, Stream.run_trailers list trailers datas ht]
  have hnone : answer none [] = ⟨404, "text/plain; charset=utf-8", text "404 page not found\n"⟩ := by
    decide +kernel
  rw [hnone]
  unfold answer
  generalize datas.flatten.flatten = b
  by_cases hlen : maxBody < b.length
  · rw [if_pos hlen]
    simp [hlen]
  · rw [if_neg hlen]
    by_cases hp : pathOf list = some echoPath
    · simp [hp]
    · simp [hp, Nat.le_of_not_lt hlen]

/-- The worker on `interleaved` with two connections, the second of which sends trailers. -/
theorem exists_trailers : ∃ (w : Worker (scripted interleaved)) (c c' : Client _), w.Reach ∧
    w.client 0 = some c ∧ w.client 1 = some c' ∧
    eventsOf 0 c.seen = [.headers [(pathName, echoPath)], .data [[7], [8]], .data [], .finished] ∧
    eventsOf 0 c'.seen = [.headers [(pathName, echoPath)], .data [[7], [8]], .data [],
      .headers [([120], [121])], .finished] ∧
    eventsOf 4 c.seen = [.headers [(pathName, [])], .data [[9]], .finished] ∧
    answersOf 0 c.answered = [⟨200, "application/octet-stream", [7, 8]⟩] ∧
    answersOf 0 c'.answered = [⟨404, "text/plain; charset=utf-8", text "404 page not found\n"⟩] := by
  obtain ⟨w, hw, hp⟩ := Worker.exists_reach (P := scripted interleaved) (0 : ℕ) [[1, 7, 0], [1, 8, 1]]
    (fun w => (w.client 0).any (fun c =>
        eventsOf 0 c.seen =
          [.headers [(pathName, echoPath)], .data [[7], [8]], .data [], .finished] ∧
        eventsOf 4 c.seen = [.headers [(pathName, [])], .data [[9]], .finished] ∧
        answersOf 0 c.answered = [⟨200, "application/octet-stream", [7, 8]⟩]) ∧
      (w.client 1).any (fun c => eventsOf 0 c.seen = [.headers [(pathName, echoPath)],
          .data [[7], [8]], .data [], .headers [([120], [121])], .finished] ∧
        answersOf 0 c.answered =
          [⟨404, "text/plain; charset=utf-8", text "404 page not found\n"⟩])) (by decide +kernel)
  obtain ⟨hp, hp'⟩ := of_decide_eq_true hp
  obtain ⟨c, hc, hevs⟩ := (Option.any_eq_true ..).mp hp
  obtain ⟨c', hc', hevs'⟩ := (Option.any_eq_true ..).mp hp'
  obtain ⟨h₀, h₄, ha⟩ := of_decide_eq_true hevs
  obtain ⟨h₀', ha'⟩ := of_decide_eq_true hevs'
  exact ⟨w, c, c', hw, hc, hc', h₀, h₀', h₄, ha, ha'⟩

theorem trailers_answer_echo : ∃ (w : Worker (scripted interleaved)) (c c' : Client _), w.Reach ∧
    w.client 0 = some c ∧ w.client 1 = some c' ∧
    ¬ answersOf 0 c'.answered = answersOf 0 c.answered := by
  obtain ⟨w, c, c', hw, hc, hc', h₀, h₀', _⟩ := exists_trailers
  refine ⟨w, c, c', hw, hc, hc', fun heq => ?_⟩
  have h := (trailers_answer hw hc hw hc' 0 0 [(pathName, echoPath)] [([120], [121])]
    [[[7], [8]], []] (by decide) h₀ h₀').mp heq
  exact h.1 (by decide +kernel)

/-- A `POST /echo` with trailers is answered 404. -/
theorem trailers_lose_request : ¬ ∀ (w w' : Worker (scripted interleaved)) (i i' : ℕ)
    (c c' : Client (scripted interleaved)), w.Reach → w.client i = some c → w'.Reach →
    w'.client i' = some c' → ∀ (sid sid' : ℕ) (list trailers : List Header) (datas : List (List Body)),
    (∀ h ∈ trailers, h.1.head? ≠ some 58) →
    eventsOf sid c.seen = .headers list :: datas.map .data ++ [.finished] →
    eventsOf sid' c'.seen = .headers list :: datas.map .data ++ [.headers trailers, .finished] →
    answersOf sid' c'.answered = answersOf sid c.answered := by
  intro h
  obtain ⟨w, c, c', hw, hc, hc', h₀, h₀', _, ha, ha'⟩ := exists_trailers
  have heq := h w w 0 1 c c' hw hc hw hc' 0 0 [(pathName, echoPath)] [([120], [121])]
    [[[7], [8]], []] (by decide) h₀ h₀'
  rw [ha, ha'] at heq
  exact absurd (congrArg (List.map Response.status) heq) (by decide)

end Http3Bench.Server
