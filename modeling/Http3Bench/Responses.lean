import Http3Bench.Streams
import Http3Bench.Loopback

/-!
# How a response is judged

`process_conn` compares a response with what its request expects as the bytes come in: a count and a
flag that stays set. Over the life of a connection the verdict depends on nothing but the last
`:status` and the bytes of the body put together, wherever they were cut and whatever other streams
did in between.
-/

namespace Http3Bench

variable {P : Platform}

/-! ### One request -/

namespace Req

/-- `readBody` with the slice `req.expect[req.got..end]` taken as the source takes it: it panics when
the range does not lie in the body. -/
def readBody? (check : Bool) (r : Req) (buf : Body) : Option Req :=
  let stop := r.got + buf.length
  if check && !r.mismatch then
    if r.expect.length < stop then some { r with mismatch := true, got := stop }
    else if r.got ≤ stop ∧ stop ≤ r.expect.length then
      some { r with
        mismatch := decide ((r.expect.drop r.got).take (stop - r.got) ≠ buf)
        got := stop }
    else none
  else some { r with got := stop }

/-- The slice is never out of range. -/
theorem readBody?_eq (check : Bool) (r : Req) (buf : Body) :
    r.readBody? check buf = some (r.readBody check buf) := by
  obtain ⟨kind, expect, status, got, mismatch⟩ := r
  unfold readBody? readBody
  cases mismatch with
  | true => simp
  | false =>
    cases check with
    | false => simp
    | true =>
      by_cases hlt : expect.length < got + buf.length
      · simp [hlt]
      · have hin : got ≤ got + buf.length ∧ got + buf.length ≤ expect.length := by omega
        simp [hlt, hin]

end Req

/-- The value of the last `:status` in a list of headers. -/
def lastStatus (list : List Header) : Option Body :=
  (list.reverse.find? (fun h => h.1 = statusName)).map Prod.snd

theorem lastStatus_append (list : List Header) (h : Header) :
    lastStatus (list ++ [h]) = if h.1 = statusName then some h.2 else lastStatus list := by
  unfold lastStatus
  rw [List.reverse_append, List.reverse_singleton, List.singleton_append, List.find?_cons]
  by_cases hs : h.1 = statusName <;> simp [hs]

theorem append_prefix_iff (e body buf : Body) :
    body ++ buf <+: e ↔ body <+: e ∧ body.length + buf.length ≤ e.length ∧
      (e.drop body.length).take buf.length = buf := by
  constructor
  · rintro ⟨t, rfl⟩
    refine ⟨⟨buf ++ t, by simp⟩, by simp, ?_⟩
    simp
  · rintro ⟨⟨t, rfl⟩, -, ht⟩
    rw [List.drop_left] at ht
    rw [← ht, List.prefix_append_right_inj]
    exact List.take_prefix _ _

namespace Req

/-- What a request knows of the response whose headers and body so far are those given. -/
structure Knows (check : Bool) (e : Body) (headers : List Header) (body : Body) (r : Req) : Prop where
  expect : r.expect = e
  status : r.status = ((lastStatus headers).bind parseU16).getD 0
  got : r.got = body.length
  mismatch : r.mismatch = (check && !decide (body <+: e))

theorem knows_new (check : Bool) (kind : ReqKind) (e : Body) :
    Knows check e [] [] { kind, expect := e } := by
  refine ⟨rfl, rfl, rfl, ?_⟩
  simp

namespace Knows

variable {check : Bool} {e body : Body} {headers : List Header} {r : Req}

theorem head (h : Knows check e headers body r) (list : List Header) :
    Knows check e (headers ++ list) body (r.readHeaders list) := by
  induction list generalizing headers r with
  | nil => simpa [readHeaders] using h
  | cons hd list ih =>
    rw [List.append_cons]
    refine ih (r := if hd.1 = statusName then { r with status := (parseU16 hd.2).getD 0 } else r) ?_
    split
    · rename_i hs
      refine ⟨h.expect, ?_, h.got, h.mismatch⟩
      rw [lastStatus_append, if_pos hs]
      rfl
    · rename_i hs
      refine ⟨h.expect, ?_, h.got, h.mismatch⟩
      rw [lastStatus_append, if_neg hs]
      exact h.status

theorem read (h : Knows check e headers body r) (buf : Body) :
    Knows check e headers (body ++ buf) (r.readBody check buf) := by
  refine ⟨h.expect, h.status, by simp [readBody, h.got], ?_⟩
  unfold readBody
  rw [h.mismatch, h.expect, h.got]
  cases check with
  | false => simp
  | true =>
    have hp := append_prefix_iff e body buf
    rw [Bool.eq_iff_iff]
    simp only [Bool.true_and, Bool.or_eq_true, Bool.not_eq_true', decide_eq_false_iff_not,
      decide_eq_true_eq, hp, not_and_or, not_le]

theorem reads (h : Knows check e headers body r) (bufs : List Body) :
    Knows check e headers (body ++ bufs.flatten) (bufs.foldl (Req.readBody check) r) := by
  induction bufs generalizing body r with
  | nil => simpa using h
  | cons buf bufs ih =>
    rw [List.flatten_cons, ← List.append_assoc]
    exact ih (h.read buf)

/-- The verdict at the end of the stream. -/
theorem result_eq_ok (h : Knows check e headers body r) (n : ℕ) :
    r.result = .ok n ↔ (lastStatus headers).bind parseU16 = some 200 ∧ body.length = e.length ∧
      n = e.length ∧ (check = true → body = e) := by
  have hstatus : r.status = 200 ↔ (lastStatus headers).bind parseU16 = some 200 := by
    rw [h.status]
    cases (lastStatus headers).bind parseU16 with
    | none => simp
    | some v => simp
  have hmis : body.length = e.length → (r.mismatch = false ↔ (check = true → body = e)) := by
    intro hlen
    rw [h.mismatch]
    cases check with
    | false => simp
    | true =>
      have : body <+: e ↔ body = e :=
        ⟨fun hp => hp.eq_of_length hlen, fun he => he ▸ List.prefix_rfl⟩
      simp [this]
  unfold result
  rw [← hstatus, h.got, h.expect]
  by_cases hs : r.status = 200
  · by_cases hlen : body.length = e.length
    · cases hm : r.mismatch with
      | true =>
        have hc := mt (hmis hlen).mpr (by simp [hm])
        simp [hs, hlen, hc]
      | false =>
        have hc := (hmis hlen).mp hm
        simp only [hs, hlen, ne_eq, not_true_eq_false, if_false, Bool.false_eq_true, Except.ok.injEq,
          true_and]
        exact ⟨fun hn => ⟨hn.symm, hc⟩, fun hn => hn.1.symm⟩
    · simp [hs, hlen]
  · simp [hs]

end Knows
end Req

/-! ### One stream -/

def StreamMark.headersOf (sid : ℕ) : StreamMark → List Header
  | .saw s (.headers list) => if s = sid then list else []
  | _ => []

def StreamMark.bodyOf (sid : ℕ) : StreamMark → Body
  | .saw s (.data reads) => if s = sid then reads.flatten else []
  | _ => []

/-- The request on stream `sid` is not recorded any more, or is another one. -/
def StreamMark.over (sid : ℕ) : StreamMark → Bool
  | .opened s _ _ => s = sid
  | .saw s .finished | .saw s (.reset _) => s = sid
  | .cleared => true
  | _ => false

/-- The headers of the response on stream `sid`. -/
def headersIn (sid : ℕ) (since : List StreamMark) : List Header :=
  since.flatMap (StreamMark.headersOf sid)

/-- The body of the response on stream `sid`. -/
def bodyIn (sid : ℕ) (since : List StreamMark) : Body := since.flatMap (StreamMark.bodyOf sid)

/-- What a request expects to be answered with. -/
def expected (kind : ReqKind) (body : Body) : Body := if kind = .dial then [] else body

theorem headersIn_append (sid : ℕ) (since : List StreamMark) (m : StreamMark) :
    headersIn sid (since ++ [m]) = headersIn sid since ++ m.headersOf sid := by
  simp [headersIn]

theorem bodyIn_append (sid : ℕ) (since : List StreamMark) (m : StreamMark) :
    bodyIn sid (since ++ [m]) = bodyIn sid since ++ m.bodyOf sid := by
  simp [bodyIn]

section

variable {check : Bool} {sid : ℕ} {kind : ReqKind} {body : Body} {pre since : List StreamMark}

/-- A recorded request knows the response its stream has brought since it was opened. -/
theorem knows_reqOf (hs : ∀ m ∈ since, m.over sid = false) :
    ∃ r, reqOf check sid (pre ++ .opened sid kind body :: since) = some r ∧ r.kind = kind ∧
      r.Knows check (expected kind body) (headersIn sid since) (bodyIn sid since) := by
  induction since using List.reverseRecOn with
  | nil =>
    refine ⟨_, ?_, rfl, Req.knows_new check kind _⟩
    rw [reqOf_append]
    simp [StreamMark.req, expected]
  | append_singleton since m ih =>
    rw [List.forall_mem_append, List.forall_mem_singleton] at hs
    obtain ⟨r, hr, hk, hknows⟩ := ih hs.1
    rw [← List.cons_append, ← List.append_assoc, reqOf_append, hr, headersIn_append, bodyIn_append]
    have skip : m.headersOf sid = [] → m.bodyOf sid = [] → m.req check sid (some r) = some r →
        ∃ r', m.req check sid (some r) = some r' ∧ r'.kind = kind ∧
          r'.Knows check (expected kind body) (headersIn sid since ++ m.headersOf sid)
            (bodyIn sid since ++ m.bodyOf sid) := by
      intro hh hb hm
      exact ⟨r, hm, hk, by simpa [hh, hb] using hknows⟩
    cases m with
    | opened s k b =>
      have hne : s ≠ sid := by simpa [StreamMark.over] using hs.2
      exact skip rfl rfl (if_neg hne)
    | cleared => simp [StreamMark.over] at hs
    | saw s ev =>
      cases ev with
      | headers list =>
        by_cases hsid : s = sid
        · refine ⟨r.readHeaders list, by simp [StreamMark.req, hsid], ?_, ?_⟩
          · rw [Conn.kind_readHeaders, hk]
          · simpa [StreamMark.headersOf, StreamMark.bodyOf, hsid] using hknows.head list
        · exact skip (if_neg hsid) rfl (if_neg hsid)
      | data reads =>
        by_cases hsid : s = sid
        · refine ⟨reads.foldl (Req.readBody check) r, by simp [StreamMark.req, hsid], ?_, ?_⟩
          · rw [Conn.kind_readBodies, hk]
          · simpa [StreamMark.headersOf, StreamMark.bodyOf, hsid] using hknows.reads reads
        · exact skip rfl (if_neg hsid) (if_neg hsid)
      | finished =>
        have hne : s ≠ sid := by simpa [StreamMark.over] using hs.2
        exact skip rfl rfl (if_neg hne)
      | reset code =>
        have hne : s ≠ sid := by simpa [StreamMark.over] using hs.2
        exact skip rfl rfl (if_neg hne)
      | _ => exact skip rfl rfl rfl
    | _ => exact skip rfl rfl rfl

end

/-! ### The answers of a connection -/

/-- The event `process_conn` answers a mark with, given the marks before it. -/
def StreamMark.reply (check : Bool) (tr : List StreamMark) : StreamMark → List ConnEvent
  | .saw s .finished =>
    (reqOf check s tr).toList.map (fun r => .response r.kind r.result .finished)
  | .saw s (.reset code) =>
    (reqOf check s tr).toList.map
      (fun r => .response r.kind (.error ("stream reset: " ++ hex code)) .reset)
  | _ => []

def replies (check : Bool) (tr : List StreamMark) : List StreamMark → List ConnEvent
  | [] => []
  | m :: rest => m.reply check tr ++ replies check (tr ++ [m]) rest

theorem replies_append (check : Bool) (tr l₁ l₂ : List StreamMark) :
    replies check tr (l₁ ++ l₂) = replies check tr l₁ ++ replies check (tr ++ l₁) l₂ := by
  induction l₁ generalizing tr with
  | nil => simp [replies]
  | cons m l₁ ih => simp [replies, ih]

namespace Conn

variable {check : Bool} {tr : List StreamMark} {c : Conn P}

theorem Recorded.replies_event (h : c.Recorded check tr) (ev : ℕ × H3Event) :
    (c.onEvent check ev).2 = StreamMark.reply check tr (.saw ev.1 ev.2) := by
  obtain ⟨s, ev⟩ := ev
  have hs := h s
  cases ev with
  | finished =>
    unfold onEvent StreamMark.reply
    dsimp only
    rw [hs]
    cases reqOf check s tr <;> rfl
  | reset code =>
    unfold onEvent StreamMark.reply
    dsimp only
    rw [hs]
    cases reqOf check s tr <;> rfl
  | _ => rfl

theorem Recorded.replies_events (h : c.Recorded check tr) (evs : List (ℕ × H3Event)) :
    (c.onEvents check evs).2 = replies check tr (evs.map (fun ev => .saw ev.1 ev.2)) := by
  induction evs generalizing c tr with
  | nil => rfl
  | cons ev evs ih =>
    rw [List.map_cons, replies, ← h.replies_event, ← ih (h.event ev)]
    rfl

theorem replies_resumeMarks (check : Bool) (tr : List StreamMark) (h : P.H3) (q : P.Q)
    (ps : List PendingBody) : replies check tr (resumeMarks h q ps) = [] := by
  induction ps generalizing tr h q with
  | nil => rfl
  | cons p ps ih =>
    unfold resumeMarks
    dsimp only
    rw [replies_append, ih, List.append_nil]
    split <;> rfl

/-- The events of one `process_conn`: the end of the handshake, what it answers the marks of its
poll loop with, and the end of the connection. -/
theorem Life.replies_process (h : Life check tr c) :
    ∃ start fin, (c.processConn check).2 =
        start ++ (replies check tr (c.processMarks check) ++ fin) ∧
      (start = [] ∨ start = [.established]) := by
  have hp := processed_processConn check c
  generalize c.processConn check = r at hp
  generalize c.processMarks check = marks at hp
  cases hp with
  | cleared => exact ⟨[], r.2, rfl, .inl rfl⟩
  | unread => exact ⟨[], r.2, rfl, .inl rfl⟩
  | @read c₁ h3 start hs _ hstart =>
    have hread : Recorded check tr
        ({ c₁ with h3 := some (P.pollAll h3 c₁.q).2.1, q := (P.pollAll h3 c₁.q).2.2 } : Conn P) := by
      intro sid
      rw [← h.recorded sid, ← hs]
    have hpolled : (c₁.polled check h3).2 = replies check tr (c₁.readMarks check h3) := by
      have hend : ∀ tr', replies check tr'
          (if P.isClosed (c₁.resumed check h3).q then [.cleared] else []) = [] := by
        intro tr'
        split <;> rfl
      unfold readMarks
      rw [replies_append, replies_append, replies_resumeMarks, hend, List.append_nil,
        List.append_nil]
      exact hread.replies_events _
    unfold readH3
    rw [← hpolled]
    split
    · exact ⟨start, _, rfl, hstart⟩
    · exact ⟨start, [], by rw [List.append_nil], hstart⟩

end Conn

/-- When `process_conn` sees the end of a stream whose request is recorded, it answers with the
length of the expected body if the last `:status` was 200 and the body was of that length and, when
bodies are checked, equal to it; and with an error if not. The slice it compares is in range, and
every connection of a run has such a life. -/
theorem response_validation {check : Bool} {tr : List StreamMark} {c : Conn P}
    (h : c.Life check tr) {sid : ℕ} {kind : ReqKind} {body : Body}
    {m₁ m₂ pre since : List StreamMark} (hm : c.processMarks check = m₁ ++ .saw sid .finished :: m₂)
    (htr : tr ++ m₁ = pre ++ .opened sid kind body :: since)
    (hs : ∀ m ∈ since, m.over sid = false) :
    (∃ start rest res, (c.processConn check).2 =
        start ++ (replies check tr m₁ ++ .response kind res .finished :: rest) ∧
      (start = [] ∨ start = [.established]) ∧
      ∀ n, res = .ok n ↔ (lastStatus (headersIn sid since)).bind parseU16 = some 200 ∧
        (bodyIn sid since).length = (expected kind body).length ∧ n = (expected kind body).length ∧
        (check = true → bodyIn sid since = expected kind body)) ∧
    (∀ (r : Req) (buf : Body), r.readBody? check buf = some (r.readBody check buf)) ∧
    ∀ (cfg : EngineConfig) (t : Thread P) (i : ℕ) (c : Conn P), t.Reach cfg → t.w.conn i = some c →
      ∃ tr, c.Life cfg.check tr := by
  obtain ⟨r, hr, hk, hknows⟩ := @knows_reqOf check sid kind body pre since hs
  obtain ⟨start, fin, hevs, hstart⟩ := h.replies_process
  refine ⟨⟨start, replies check (tr ++ m₁ ++ [.saw sid .finished]) m₂ ++ fin, r.result, ?_, hstart,
    hknows.result_eq_ok⟩, Req.readBody?_eq check, fun _ _ _ _ ht hc => ht.exists_life hc⟩
  rw [hevs, hm, replies_append, replies, htr]
  simp [StreamMark.reply, hr, hk]

/-- The answers to two requests come in turns and in pieces, the second with its bytes exchanged. -/
def mixedEvents : List (ℕ × H3Event) :=
  [(0, .headers [(statusName, [50, 48, 48])]), (1, .headers [(statusName, [50, 48, 48])]),
    (0, .data [[7]]), (1, .data [[9, 8]]), (0, .data [[8], [9]]), (1, .finished), (0, .finished)]

def mixedLoopback : Platform :=
  { loopback with pollAll := fun h q => ((mixedEvents, none), h, q) }

def readyConn : Conn mixedLoopback where
  sock := 3
  q := Peer.established
  h3 := (some (0 : ℕ) : Option ℕ)
  localAddr := ⟨true, "10.0.0.1:40000"⟩
  peer := ⟨true, "10.0.0.2:3000"⟩
  state := .ready
  dial := none
  attemptDeadline := none
  lastActive := 0
  uid := 0

/-- A connection on which the bytes 7, 8 and 9 have been sent, and then 8 and 9. -/
def answeredConn : Conn mixedLoopback :=
  ((readyConn.trySend [] (.echo 0 0) [7, 8, 9]).conn.trySend [] (.echo 1 0) [8, 9]).conn

theorem response_validation_echo :
    ∃ start₀ rest₀ start₁ rest₁ res, (answeredConn.processConn true).2 =
        start₀ ++ .response (.echo 0 0) (.ok 3) .finished :: rest₀ ∧
      (answeredConn.processConn true).2 =
        start₁ ++ .response (.echo 1 0) res .finished :: rest₁ ∧ ∀ n, res ≠ .ok n := by
  have hlife : answeredConn.Life true
      [.opened 0 (.echo 0 0) [7, 8, 9], .took 0 [7, 8, 9], .opened 1 (.echo 1 0) [8, 9], .took 1 [8, 9]] :=
    ((Conn.Life.new (c := readyConn) rfl rfl).send [] (.echo 0 0) [7, 8, 9]).send [] (.echo 1 0) [8, 9]
  have hmarks : answeredConn.processMarks true = mixedEvents.map (fun e => .saw e.1 e.2) := rfl
  obtain ⟨⟨start₀, rest₀, res₀, hevs₀, -, hres₀⟩, -⟩ :=
    @response_validation _ _ _ _ hlife 0 (.echo 0 0) [7, 8, 9]
      [.saw 0 (.headers [(statusName, [50, 48, 48])]), .saw 1 (.headers [(statusName, [50, 48, 48])]),
        .saw 0 (.data [[7]]), .saw 1 (.data [[9, 8]]), .saw 0 (.data [[8], [9]]), .saw 1 .finished] []
      [] _ hmarks rfl (by decide)
  obtain ⟨⟨start₁, rest₁, res₁, hevs₁, -, hres₁⟩, -⟩ :=
    @response_validation _ _ _ _ hlife 1 (.echo 1 0) [8, 9]
      [.saw 0 (.headers [(statusName, [50, 48, 48])]), .saw 1 (.headers [(statusName, [50, 48, 48])]),
        .saw 0 (.data [[7]]), .saw 1 (.data [[9, 8]]), .saw 0 (.data [[8], [9]])] [.saw 0 .finished]
      [.opened 0 (.echo 0 0) [7, 8, 9], .took 0 [7, 8, 9]] _ hmarks rfl (by decide)
  rw [(hres₀ 3).mpr (by decide)] at hevs₀
  refine ⟨_, rest₀, _, rest₁, res₁, hevs₀.trans (List.append_assoc ..).symm,
    hevs₁.trans (List.append_assoc ..).symm, fun n hn => ?_⟩
  exact absurd (((hres₁ n).mp hn).2.2.2 rfl) (by decide)

end Http3Bench
