import Http3Bench.Responses
import Http3Bench.Server.Echo

/-!
# A request of the client at the quiche server

What `process_conn` makes of the response when the other end is `server.rs`: the headers of
`request_headers` reach `process`, its response reaches `process_conn`, and QUIC cuts both bodies as
it likes. The first request of a connection and the round trips of the two benchmarks are answered
alike, and `-check` finds nothing as long as the server takes the body.
-/

namespace Http3Bench

open SendCall (on headsOf bytesOf)

variable {P : Platform} {S : Server.ServerPlatform}

theorem pathOf_requestHeaders (method authority : String) (len : Option ℕ) :
    Server.pathOf (requestHeaders method authority len) = some Server.echoPath := by
  have hmethod : bytes ":method" ≠ Server.pathName := by decide +kernel
  have hscheme : bytes ":scheme" ≠ Server.pathName := by decide +kernel
  have hauthority : bytes ":authority" ≠ Server.pathName := by decide +kernel
  have htype : bytes "content-type" ≠ Server.pathName := by decide +kernel
  have hlength : bytes "content-length" ≠ Server.pathName := by decide +kernel
  have hpath : bytes ":path" = Server.pathName := by decide +kernel
  have hecho : bytes echoPath = Server.echoPath := by decide +kernel
  unfold Server.pathOf requestHeaders
  cases len with
  | none => simp [hmethod, hscheme, hauthority, hpath, hecho]
  | some n => simp [hmethod, hscheme, hauthority, hpath, hecho, htype, hlength]

/-- The status of a response is the only `:status` of its headers. -/
theorem lastStatus_headers (r : Server.Response) :
    lastStatus r.headers = some (Server.text (toString r.status)) := by
  have hstatus : Server.text ":status" = statusName := by decide +kernel
  have htype : Server.text "content-type" ≠ statusName := by decide +kernel
  have hlength : Server.text "content-length" ≠ statusName := by decide +kernel
  unfold lastStatus Server.Response.headers
  simp [hstatus, htype, hlength]

/-- One stream as both ends have it: the request has arrived at the server whole, quiche has accepted
the end of what it was answered with, and what was accepted has come back, each cut into pieces in
some way. -/
structure Carried (c' : Server.Client S.recorded) (sid : ℕ) (body : Body) (since : List StreamMark) :
    Prop where
  request : ∃ method authority len, ∃ datas : List (List Body), datas.flatten.flatten = body ∧
    Server.eventsOf sid c'.seen =
      .headers (requestHeaders method authority len) :: datas.map .data ++ [.finished]
  ended : ∃ call ∈ on sid c'.calls, call.ends
  headers : headersIn sid since = (headsOf (on sid c'.calls)).flatten
  body : bodyIn sid since = bytesOf (on sid c'.calls)

/-- What the server has made of such a request. -/
theorem Carried.answer {w : Server.Worker S.recorded} {i : ℕ} {c' : Server.Client S.recorded}
    {sid : ℕ} {body : Body} {since : List StreamMark} (h : Carried c' sid body since) (hw : w.Reach)
    (hc : w.client i = some c') :
    headersIn sid since = (Server.answer (some Server.echoPath) body).headers ∧
      bodyIn sid since = (Server.answer (some Server.echoPath) body).body := by
  obtain ⟨method, authority, len, datas, hbody, hevs⟩ := h.request
  have hd := (hw.delivers hc hevs).2
  rw [pathOf_requestHeaders, hbody] at hd
  obtain ⟨hheads, hbytes⟩ := hd.offered.whole h.ended
  rw [h.headers, h.body, hheads, hbytes]
  exact ⟨by simp, rfl⟩

theorem answer_ok {body : Body} (h : body.length ≤ Server.maxBody) :
    Server.answer (some Server.echoPath) body = ⟨200, "application/octet-stream", body⟩ := by
  unfold Server.answer
  rw [if_neg (by omega), if_pos rfl]

theorem status_answer_large {body : Body} (h : Server.maxBody < body.length) :
    (Server.answer (some Server.echoPath) body).status = 413 := by
  unfold Server.answer
  rw [if_pos h]

/-- A request the quiche server has answered is a success for the client exactly if its body is no
larger than the server takes, whether bodies are checked or not; otherwise it has failed with the
status of the answer. The first request of a connection has no body. -/
theorem round_trip {check : Bool} {tr : List StreamMark} {c : Conn P} (h : c.Life check tr) {sid : ℕ}
    {kind : ReqKind} {body : Body} {m₁ m₂ pre since : List StreamMark}
    (hm : c.processMarks check = m₁ ++ .saw sid .finished :: m₂)
    (htr : tr ++ m₁ = pre ++ .opened sid kind body :: since) (hs : ∀ m ∈ since, m.over sid = false)
    (hdial : kind = .dial → body = []) {w : Server.Worker S.recorded} {i : ℕ}
    {c' : Server.Client S.recorded}
    (hw : w.Reach) (hc : w.client i = some c') (hcarried : Carried c' sid body since) :
    ∃ start rest res, (c.processConn check).2 =
        start ++ (replies check tr m₁ ++ .response kind res .finished :: rest) ∧
      (start = [] ∨ start = [.established]) ∧
      (res = .ok body.length ↔ body.length ≤ Server.maxBody) ∧
      (Server.maxBody < body.length → res = .error "status 413") := by
  obtain ⟨r, hr, hk, hknows⟩ := @knows_reqOf check sid kind body pre since hs
  obtain ⟨start, fin, hevs, hstart⟩ := h.replies_process
  obtain ⟨hheaders, hback⟩ := hcarried.answer hw hc
  have hbad : parseU16 (Server.text (toString 413)) = some 413 := by decide +kernel
  refine ⟨start, replies check (tr ++ m₁ ++ [.saw sid .finished]) m₂ ++ fin, r.result, ?_, hstart, ?_,
    fun hlarge => ?_⟩
  · rw [hevs, hm, replies_append, replies, htr]
    simp [StreamMark.reply, hr, hk]
  · have hexpect : expected kind body = body := by
      unfold expected
      split
      · rename_i hkind
        rw [hdial hkind]
      · rfl
    rw [hknows.result_eq_ok, hexpect, hheaders, hback, lastStatus_headers]
    by_cases hlen : body.length ≤ Server.maxBody
    · rw [answer_ok hlen]
      have hok : parseU16 (Server.text (toString 200)) = some 200 := by decide +kernel
      rw [Option.bind_some, hok]
      simp [hlen]
    · rw [status_answer_large (by omega)]
      rw [Option.bind_some, hbad]
      simp [hlen]
  · have hstatus : r.status = 413 := by
      rw [hknows.status, hheaders, lastStatus_headers, status_answer_large hlarge, Option.bind_some,
        hbad]
      rfl
    unfold Req.result
    rw [hstatus]
    rfl

/-- A `POST /echo` of two bytes, which arrive one by one, with the first datagram. -/
def posted (data : Body) : List (ℕ × H3Event) :=
  if data = [] then
    [(0, .headers (requestHeaders "POST" "10.0.0.2:3000" (some 2))), (0, .data [[7]]),
      (0, .data [[8]]), (0, .finished)]
  else []

/-- The loopback client, answered the way the server does, byte by byte. -/
def servedLoopback : Platform :=
  { loopback with
    pollAll := fun (h : ℕ) q => match q with
      | .answering body =>
        (((h - 1, .headers (Server.answer (some Server.echoPath) body).headers) ::
          body.map (fun b => (h - 1, .data [[b]])) ++ [(h - 1, .finished)], none), h, .established)
      | q => (([], none), h, q) }

def servedConn : Conn servedLoopback where
  sock := 3
  q := Peer.answering [7, 8]
  h3 := (some (0 : ℕ) : Option ℕ)
  localAddr := ⟨true, "10.0.0.1:40000"⟩
  peer := ⟨true, "10.0.0.2:3000"⟩
  state := .ready
  dial := none
  attemptDeadline := none
  lastActive := 0
  uid := 0

def postedAnswer : Server.Response := Server.answer (some Server.echoPath) [7, 8]

/-- The answer is blocked at first and goes out in two pieces. -/
def postedCalls : List SendCall :=
  [.response 0 postedAnswer.headers false (.error .streamBlocked),
    .response 0 postedAnswer.headers false (.ok ()), .body 0 [7, 8] true (.ok 1),
    .body 0 [8] true (.ok 1)]

theorem round_trip_post :
    ∃ start rest, ((servedConn.trySend [] (.echo 0 0) [7, 8]).conn.processConn true).2 =
      start ++ .response (.echo 0 0) (.ok 2) .finished :: rest := by
  obtain ⟨w, hw, hp⟩ := Server.Worker.exists_reach (P := (Server.narrow posted).recorded) (0 : ℕ)
    [[1, 7], [0, 200, 1]]
    (fun w => (w.client 0).any (fun c => Server.eventsOf 0 c.seen =
      [.headers (requestHeaders "POST" "10.0.0.2:3000" (some 2)), .data [[7]], .data [[8]],
        .finished] ∧ on 0 c.calls = postedCalls)) (by decide +kernel)
  obtain ⟨c, hc, hevs⟩ := (Option.any_eq_true ..).mp hp
  obtain ⟨hseen, hcalls⟩ := of_decide_eq_true hevs
  have hlife : (servedConn.trySend [] (.echo 0 0) [7, 8]).conn.Life true
      [.opened 0 (.echo 0 0) [7, 8], .took 0 [7, 8]] :=
    (Conn.Life.new (c := servedConn) rfl rfl).send [] (.echo 0 0) [7, 8]
  have hmarks : (servedConn.trySend [] (.echo 0 0) [7, 8]).conn.processMarks true =
      [.saw 0 (.headers postedAnswer.headers), .saw 0 (.data [[7]]), .saw 0 (.data [[8]])] ++
        .saw 0 .finished :: [] := rfl
  have hcarried : Carried c 0 [7, 8]
      [.took 0 [7, 8], .saw 0 (.headers postedAnswer.headers), .saw 0 (.data [[7]]),
        .saw 0 (.data [[8]])] :=
    ⟨⟨_, _, _, [[[7]], [[8]]], rfl, hseen⟩, by rw [hcalls]; decide +kernel,
      by rw [hcalls]; decide +kernel, by rw [hcalls]; decide +kernel⟩
  obtain ⟨start, rest, res, hout, -, hres, -⟩ := @round_trip _ _ true _ _ hlife 0 (.echo 0 0) [7, 8]
    _ _ [] _ hmarks rfl (by decide +kernel) (by simp) _ _ _ hw hc hcarried
  rw [hres.mpr (by decide)] at hout
  exact ⟨start, rest, hout⟩

end Http3Bench
