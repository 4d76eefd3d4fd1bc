import Http3Bench.Text

/-!
# The control protocol

Before and after the benchmarks the client speaks HTTP/1 to a server's control port: `control_once`
in the client, `serve` in the quiche server, each with its own writer and its own parser. A request
frames its body by Content-Length, a reply by the end of the stream. The two round trips are
`readRequest_request` and `readResponse_response`; `control_exchange` puts them together.
-/

namespace Http3Bench.Control

open Text

/-- A `SocketAddr` as `Display` shows it. -/
structure Peer where
  shown : List Char
  printable : ∀ c ∈ shown, c ∈ "0123456789abcdef.:[]%".toList

structure Request where
  method : List Char
  path : List Char
  body : List UInt8
  deriving DecidableEq

/-! ### The client's side -/

/-- What `control_once` writes. -/
def request (addr : Peer) (method path : List Char) (body : List UInt8) : List UInt8 :=
  let req := method ++ " ".toList ++ path ++ " HTTP/1.0\r\nHost: ".toList ++ addr.shown ++
    "\r\n".toList
  let req := if method = "POST".toList then
      req ++ "Content-Length: ".toList ++ Nat.toDigits 10 body.length ++ "\r\n".toList
    else req
  encode (req ++ "\r\n".toList) ++ body

inductive ControlError
  | io (e : String)
  /-- `malformed response`. -/
  | malformedResponse
  /-- `malformed status line: `, with the first line. -/
  | malformedStatusLine (line : Option (List Char))
  deriving DecidableEq

/-- `str::lines` up to the first line. -/
def firstLine (s : List Char) : Option (List Char) :=
  if s = [] then none
  else
    let line := s.takeWhile (· != '\n')
    some (if line.length < s.length ∧ line.getLast? = some '\r' then line.dropLast else line)

/-- How `control_once` reads the whole response. -/
def readResponse (resp : List UInt8) : Except ControlError (ℕ × List UInt8) :=
  match position blankLine resp with
  | none => .error .malformedResponse
  | some split =>
      let head := lossy (resp.take split)
      match (splitWhitespace head)[1]?.bind (parseUnsigned 65535) with
      | none => .error (.malformedStatusLine (firstLine head))
      | some status => .ok (status, resp.drop (split + 4))

/-- `control_once` over a stream that answers what is written to it by `exchange`. -/
def controlOnce (exchange : List UInt8 → Except String (List UInt8)) (addr : Peer)
    (method path : List Char) (body : List UInt8) : Except ControlError (ℕ × List UInt8) :=
  match exchange (request addr method path body) with
  | .error e => .error (.io e)
  | .ok resp => readResponse resp

/-! ### The server's side -/

/-- The value a header line gives the body's length, if it is the line that does. -/
def contentLength (h : List Char) : Option ℕ :=
  match splitOnce ':' h with
  | some (name, value) =>
      if name.map Char.toLower = "content-length".toList then
        some ((parseUnsigned (2 ^ 64 - 1) (trim value)).getD 0)
      else none
  | none => none

/-- The loop of `serve` over the header lines. -/
def readHeaders (s : Input) (length : ℕ) : Except ReadError (ℕ × Input) :=
  match _hs : s.readLine with
  | .error e => .error e
  | .ok (h, s') =>
      if _hh : h = [] ∨ h = "\r\n".toList ∨ h = "\n".toList then .ok (length, s')
      else readHeaders s' ((contentLength h).getD length)
termination_by s.bytes.length
decreasing_by exact Input.length_readLine_lt _hs (fun h => _hh (.inl h))

/-- What `serve` reads before it answers. -/
def readRequest (s : Input) : Except ReadError Request := do
  let (line, s) ← s.readLine
  let parts := splitWhitespace line
  let method := parts[0]?.getD []
  let target := parts[1]?.getD []
  let path := (target.splitOn '?').head?.getD []
  let (length, s) ← readHeaders s 0
  let (body, _) ← s.readExact (min length (2 ^ 20))
  return ⟨method, path, body⟩

/-- What `serve` writes. -/
def response (status : ℕ) (reply : List Char) : List UInt8 :=
  let text := if status = 200 then "OK".toList else "Not Found".toList
  encode ("HTTP/1.1 ".toList ++ Nat.toDigits 10 status ++ " ".toList ++ text ++
    "\r\nContent-Type: text/plain; charset=utf-8\r\nContent-Length: ".toList ++
    Nat.toDigits 10 (encode reply).length ++ "\r\nConnection: close\r\n\r\n".toList ++ reply)

section Serve

variable (init : List UInt8 → List Char) (ps : List Char)

def route (r : Request) : ℕ × List Char :=
  if r.path = "/init".toList then (200, init r.body)
  else if r.path = "/ps".toList then (200, ps)
  else (404, "404 page not found\n".toList)

def serve (s : Input) : Except ReadError (List UInt8) := do
  let r ← readRequest s
  let (status, reply) := route init ps r
  return response status reply

end Serve

/-! ### The request's round trip -/

theorem readHeaders_line {line : List Char} (hn : '\n' ∉ line) (hne : line ≠ [])
    (hcr : line ≠ ['\r']) (rest : List UInt8) (closed : Bool) (length : ℕ) :
    readHeaders ⟨encode (line ++ ['\n']) ++ rest, closed⟩ length =
      readHeaders ⟨rest, closed⟩ ((contentLength (line ++ ['\n'])).getD length) := by
  have hline : ¬ (line ++ ['\n'] = [] ∨ line ++ ['\n'] = "\r\n".toList ∨
      line ++ ['\n'] = "\n".toList) := by
    rintro (h | h | h)
    · simp at h
    · exact hcr (List.append_inj_left' (h : line ++ ['\n'] = ['\r'] ++ ['\n']) rfl)
    · exact hne (List.append_inj_left' (h : line ++ ['\n'] = [] ++ ['\n']) rfl)
  rw [readHeaders]
  split
  · rename_i e he
    rw [Input.readLine_encode line rest closed hn] at he
    cases he
  · rename_i h s' hs
    rw [Input.readLine_encode line rest closed hn] at hs
    obtain ⟨rfl, rfl⟩ := Prod.mk.inj (Except.ok.inj hs)
    rw [dif_neg hline]

theorem readHeaders_blank (rest : List UInt8) (closed : Bool) (length : ℕ) :
    readHeaders ⟨encode "\r\n".toList ++ rest, closed⟩ length = .ok (length, ⟨rest, closed⟩) := by
  have hread : Input.readLine ⟨encode "\r\n".toList ++ rest, closed⟩ =
      .ok ("\r\n".toList, ⟨rest, closed⟩) :=
    Input.readLine_encode ['\r'] rest closed (by decide)
  rw [readHeaders]
  split
  · rename_i e he
    rw [hread] at he
    cases he
  · rename_i h s' hs
    rw [hread] at hs
    obtain ⟨rfl, rfl⟩ := Prod.mk.inj (Except.ok.inj hs)
    rw [dif_pos (.inr (.inl rfl))]

theorem contentLength_append {name : List Char} (h : ':' ∉ name) (value : List Char) :
    contentLength (name ++ ':' :: value) =
      if name.map Char.toLower = "content-length".toList then
        some ((parseUnsigned (2 ^ 64 - 1) (trim value)).getD 0)
      else none := by
  rw [contentLength, splitOnce_append h]

theorem contentLength_host (shown : List Char) :
    contentLength ("Host: ".toList ++ shown) = none := by
  have h : "Host: ".toList ++ shown = "Host".toList ++ ':' :: (' ' :: shown) := by
    rw [show "Host: ".toList = "Host".toList ++ [':', ' '] by decide]
    simp
  rw [h, contentLength_append (by decide), if_neg (by decide)]

theorem contentLength_digits {n : ℕ} (h : n < 2 ^ 64) :
    contentLength ("Content-Length: ".toList ++ Nat.toDigits 10 n ++ "\r\n".toList) = some n := by
  have hs : "Content-Length: ".toList ++ Nat.toDigits 10 n ++ "\r\n".toList =
      "Content-Length".toList ++ ':' :: (" ".toList ++ Nat.toDigits 10 n ++ "\r\n".toList) := by
    rw [show "Content-Length: ".toList = "Content-Length".toList ++ [':', ' '] by decide]
    simp
  have hw : ∀ c ∈ Nat.toDigits 10 n, isWhitespace c = false := fun c hc =>
    isWhitespace_of_isDigit (Nat.isDigit_of_mem_toDigits (by decide) (by decide) hc)
  have htrim : trim (" ".toList ++ Nat.toDigits 10 n ++ "\r\n".toList) = Nat.toDigits 10 n :=
    trim_padded (List.all_eq_true.mp rfl) hw Nat.toDigits_ne_nil (List.all_eq_true.mp rfl)
  rw [hs, contentLength_append (by simp), if_pos (by rfl), htrim,
    parseUnsigned_toDigits (by omega), Option.getD_some]

theorem splitWhitespace_requestLine {method path : List Char}
    (hm : method ≠ []) (hmw : ∀ c ∈ method, isWhitespace c = false)
    (hp : path ≠ []) (hpw : ∀ c ∈ path, isWhitespace c = false) :
    splitWhitespace (method ++ " ".toList ++ path ++ " HTTP/1.0\r".toList ++ ['\n']) =
      [method, path, "HTTP/1.0".toList] := by
  have h : method ++ " ".toList ++ path ++ " HTTP/1.0\r".toList ++ ['\n'] =
      method ++ ' ' :: (path ++ ' ' :: "HTTP/1.0\r\n".toList) := by
    rw [show " HTTP/1.0\r".toList = ' ' :: "HTTP/1.0\r".toList by decide,
      show "HTTP/1.0\r\n".toList = "HTTP/1.0\r".toList ++ ['\n'] by decide,
      show " ".toList = [' '] by decide]
    simp
  rw [h, splitWhitespace_word hmw hm (by decide), splitWhitespace_word hpw hp (by decide)]
  congr 2

theorem not_mem_newline {s : List Char} (h : ∀ c ∈ s, isWhitespace c = false) : '\n' ∉ s :=
  fun hn => absurd (h _ hn) (by decide)

theorem Peer.newline_not_mem (addr : Peer) : '\n' ∉ addr.shown :=
  fun h => absurd (addr.printable _ h) (by decide)

theorem newline_not_mem_toDigits (n : ℕ) : '\n' ∉ Nat.toDigits 10 n :=
  fun h => absurd (Nat.isDigit_of_mem_toDigits (by decide) (by decide) h) (by decide)

def hostLine (addr : Peer) : List Char := "Host: ".toList ++ addr.shown ++ "\r".toList

def lengthLine (body : List UInt8) : List Char :=
  "Content-Length: ".toList ++ Nat.toDigits 10 body.length ++ "\r".toList

theorem readHeaders_hostLine (addr : Peer) (rest : List UInt8) (closed : Bool) (length : ℕ) :
    readHeaders ⟨encode (hostLine addr ++ ['\n']) ++ rest, closed⟩ length =
      readHeaders ⟨rest, closed⟩ length := by
  have hn : '\n' ∉ hostLine addr := by
    unfold hostLine
    simp only [List.mem_append, not_or]
    exact ⟨⟨by decide, addr.newline_not_mem⟩, by decide⟩
  have hhead : (hostLine addr).head? = some 'H' := rfl
  have hnone : contentLength (hostLine addr ++ ['\n']) = none := by
    unfold hostLine
    rw [List.append_assoc, List.append_assoc]
    exact contentLength_host _
  rw [readHeaders_line hn, hnone, Option.getD_none]
  · intro h
    rw [h] at hhead
    cases hhead
  · intro h
    rw [h] at hhead
    exact absurd hhead (by decide)

theorem readHeaders_lengthLine {body : List UInt8} (hlen : body.length < 2 ^ 64)
    (rest : List UInt8) (closed : Bool) (length : ℕ) :
    readHeaders ⟨encode (lengthLine body ++ ['\n']) ++ rest, closed⟩ length =
      readHeaders ⟨rest, closed⟩ body.length := by
  have hn : '\n' ∉ lengthLine body := by
    unfold lengthLine
    simp only [List.mem_append, not_or]
    exact ⟨⟨by decide, newline_not_mem_toDigits _⟩, by decide⟩
  have hhead : (lengthLine body).head? = some 'C' := by
    unfold lengthLine
    rw [show "Content-Length: ".toList = 'C' :: "ontent-Length: ".toList by decide]
    rfl
  have hsome : contentLength (lengthLine body ++ ['\n']) = some body.length := by
    unfold lengthLine
    rw [← contentLength_digits hlen, List.append_assoc,
      show "\r".toList ++ ['\n'] = "\r\n".toList by decide]
  rw [readHeaders_line hn, hsome, Option.getD_some]
  · intro h
    rw [h] at hhead
    cases hhead
  · intro h
    rw [h] at hhead
    exact absurd hhead (by decide)

theorem request_eq (addr : Peer) (method path : List Char) (body : List UInt8) :
    request addr method path body =
      encode (method ++ " ".toList ++ path ++ " HTTP/1.0\r".toList ++ ['\n']) ++
        (encode (hostLine addr ++ ['\n']) ++
          ((if method = "POST".toList then encode (lengthLine body ++ ['\n']) else []) ++
            (encode "\r\n".toList ++ body))) := by
  have hcrlf : "\r\n".toList = "\r".toList ++ ['\n'] := by decide
  have hhost : " HTTP/1.0\r\nHost: ".toList = " HTTP/1.0\r".toList ++ ['\n'] ++ "Host: ".toList := by
    decide
  unfold request hostLine lengthLine
  split
  all_goals simp only [hhost, hcrlf, encode_append, List.append_assoc, List.nil_append]

theorem readHeaders_request {method : List Char} {body : List UInt8}
    (hlen : body.length < 2 ^ 64) (hbody : method ≠ "POST".toList → body = [])
    (addr : Peer) (closed : Bool) :
    readHeaders ⟨encode (hostLine addr ++ ['\n']) ++
      ((if method = "POST".toList then encode (lengthLine body ++ ['\n']) else []) ++
        (encode "\r\n".toList ++ body)), closed⟩ 0 = .ok (body.length, ⟨body, closed⟩) := by
  rw [readHeaders_hostLine]
  by_cases hpost : method = "POST".toList
  · rw [if_pos hpost, readHeaders_lengthLine hlen, readHeaders_blank]
  · rw [if_neg hpost, List.nil_append, readHeaders_blank, hbody hpost, List.length_nil]

theorem readRequest_request (addr : Peer) {method path : List Char} {body : List UInt8}
    (hm : method ≠ []) (hmw : ∀ c ∈ method, isWhitespace c = false)
    (hp : path ≠ []) (hpw : ∀ c ∈ path, isWhitespace c = false)
    (hlen : body.length ≤ 2 ^ 20) (hbody : method ≠ "POST".toList → body = []) (closed : Bool) :
    readRequest ⟨request addr method path body, closed⟩ =
      .ok ⟨method, path.takeWhile (· ≠ '?'), body⟩ := by
  have hn : '\n' ∉ method ++ " ".toList ++ path ++ " HTTP/1.0\r".toList := by
    simp only [List.mem_append, not_or]
    exact ⟨⟨⟨not_mem_newline hmw, by decide⟩, not_mem_newline hpw⟩, by decide⟩
  have hread : Input.readExact ⟨body, closed⟩ body.length = .ok (body, ⟨[], closed⟩) := by
    simpa using Input.readExact_append body [] closed
  unfold readRequest
  rw [request_eq, Input.readLine_encode _ _ _ hn]
  simp only [bind, Except.bind, readHeaders_request (by omega) hbody, min_eq_left hlen, hread,
    splitWhitespace_requestLine hm hmw hp hpw]
  simp only [List.getElem?_cons_zero, List.getElem?_cons_succ, Option.getD_some, head_splitOn]
  rfl

/-! ### The response's round trip -/

/-- The lines of the reply's head, the last one without its end. -/
def statusLine (status : ℕ) : List Char :=
  "HTTP/1.1 ".toList ++ Nat.toDigits 10 status ++ " ".toList ++
    (if status = 200 then "OK".toList else "Not Found".toList)

def typeLine : List Char := "Content-Type: text/plain; charset=utf-8".toList

def sizeLine (reply : List Char) : List Char :=
  "Content-Length: ".toList ++ Nat.toDigits 10 (encode reply).length

def closeLine : List Char := "Connection: close".toList

def head (status : ℕ) (reply : List Char) : List Char :=
  statusLine status ++ "\r\n".toList ++ typeLine ++ "\r\n".toList ++ sizeLine reply ++
    "\r\n".toList ++ closeLine

theorem response_eq (status : ℕ) (reply : List Char) :
    response status reply = encode (head status reply) ++ (blankLine ++ encode reply) := by
  have htype : "\r\nContent-Type: text/plain; charset=utf-8\r\nContent-Length: ".toList =
      "\r\n".toList ++ typeLine ++ "\r\n".toList ++ "Content-Length: ".toList := by decide
  have hclose : "\r\nConnection: close\r\n\r\n".toList =
      "\r\n".toList ++ closeLine ++ "\r\n\r\n".toList := by decide
  have hblank : encode "\r\n\r\n".toList = blankLine := by decide
  unfold response head statusLine sizeLine
  simp only [htype, hclose, ← hblank, encode_append, List.append_assoc]

theorem cr_not_mem_encode {s : List Char} (h : '\r' ∉ s) : 13 ∉ encode s :=
  not_mem_encode (show String.utf8EncodeChar '\r' = [13] by decide) (by decide) h

theorem cr_not_mem_toDigits (n : ℕ) : '\r' ∉ Nat.toDigits 10 n :=
  fun h => absurd (Nat.isDigit_of_mem_toDigits (by decide) (by decide) h) (by decide)

theorem cr_not_mem_statusLine (status : ℕ) : '\r' ∉ statusLine status := by
  unfold statusLine
  simp only [List.mem_append, not_or]
  refine ⟨⟨⟨by decide, cr_not_mem_toDigits _⟩, by decide⟩, ?_⟩
  split <;> decide

theorem cr_not_mem_sizeLine (reply : List Char) : '\r' ∉ sizeLine reply := by
  unfold sizeLine
  simp only [List.mem_append, not_or]
  exact ⟨by decide, cr_not_mem_toDigits _⟩

theorem position_response (status : ℕ) (reply : List Char) :
    position blankLine (response status reply) = some (encode (head status reply)).length := by
  have hcrlf : encode "\r\n".toList = [13, 10] := by decide
  have hstatus := cr_not_mem_encode (cr_not_mem_statusLine status)
  have htype := cr_not_mem_encode (show '\r' ∉ typeLine by decide)
  have hsize := cr_not_mem_encode (cr_not_mem_sizeLine reply)
  have hclose := cr_not_mem_encode (show '\r' ∉ closeLine by decide)
  have hne : sizeLine reply ≠ [] := by
    unfold sizeLine
    exact List.append_ne_nil_of_right_ne_nil _ Nat.toDigits_ne_nil
  rw [response_eq]
  unfold head
  simp only [encode_append, hcrlf, List.append_assoc]
  rw [position_line hstatus htype (encode_ne_nil (by decide)),
    position_line htype hsize (encode_ne_nil hne),
    position_line hsize hclose (encode_ne_nil (by decide)), position_blank hclose]
  simp only [Option.map_some, List.length_append, List.length_cons, List.length_nil]
  congr 1
  omega

theorem splitWhitespace_head (status : ℕ) (reply : List Char) :
    (splitWhitespace (head status reply))[1]? = some (Nat.toDigits 10 status) := by
  have hw : ∀ c ∈ Nat.toDigits 10 status, isWhitespace c = false := fun c hc =>
    isWhitespace_of_isDigit (Nat.isDigit_of_mem_toDigits (by decide) (by decide) hc)
  have h : ∃ rest, head status reply =
      "HTTP/1.1".toList ++ ' ' :: (Nat.toDigits 10 status ++ ' ' :: rest) := by
    unfold head statusLine
    rw [show "HTTP/1.1 ".toList = "HTTP/1.1".toList ++ [' '] by decide,
      show " ".toList = [' '] by decide]
    simp only [List.append_assoc, List.cons_append, List.nil_append]
    exact ⟨_, rfl⟩
  obtain ⟨rest, hr⟩ := h
  rw [hr, splitWhitespace_word (not_isWhitespace_of_all rfl) (by decide) (by decide),
    splitWhitespace_word hw Nat.toDigits_ne_nil (by decide)]
  rfl

theorem readResponse_response {status : ℕ} (hs : status ≤ 65535) (reply : List Char) :
    readResponse (response status reply) = .ok (status, encode reply) := by
  have hdrop : (response status reply).drop ((encode (head status reply)).length + 4) =
      encode reply := by
    rw [response_eq, ← List.drop_drop, List.drop_left]
    rfl
  have htake : (response status reply).take (encode (head status reply)).length =
      encode (head status reply) := by
    rw [response_eq, List.take_left]
  rw [readResponse, position_response]
  simp only [htake, lossy_encode, splitWhitespace_head, hdrop, Option.bind_some,
    parseUnsigned_toDigits hs]

/-! ### The protocol -/

/-- What `control_once` writes, `serve` reads back, and the other way round, whatever is in the body
and in the reply; the server never waits for more than the client has written. -/
theorem control_round_trip (addr : Peer) (method path : List Char) (body : List UInt8)
    (hm : method ≠ []) (hmw : ∀ c ∈ method, isWhitespace c = false)
    (hp : path ≠ []) (hpw : ∀ c ∈ path, isWhitespace c = false)
    (hlen : body.length ≤ 2 ^ 20) (hbody : method ≠ "POST".toList → body = []) :
    (∀ closed, readRequest ⟨request addr method path body, closed⟩ =
      .ok ⟨method, path.takeWhile (· ≠ '?'), body⟩) ∧
    (∀ status reply, status = 200 ∨ status = 404 →
      readResponse (response status reply) = .ok (status, encode reply)) ∧
    ∀ init ps, controlOnce (fun req => (serve init ps ⟨req, false⟩).mapError fun _ => "closed")
        addr method path body =
      let (status, reply) := route init ps ⟨method, path.takeWhile (· ≠ '?'), body⟩
      .ok (status, encode reply) := by
  have hreq := fun closed => readRequest_request addr hm hmw hp hpw hlen hbody closed
  have hresp : ∀ status reply, status = 200 ∨ status = 404 →
      readResponse (response status reply) = .ok (status, encode reply) :=
    fun status reply hs => readResponse_response (by omega) reply
  refine ⟨hreq, hresp, fun init ps => ?_⟩
  have hroute : (route init ps ⟨method, path.takeWhile (· ≠ '?'), body⟩).1 = 200 ∨
      (route init ps ⟨method, path.takeWhile (· ≠ '?'), body⟩).1 = 404 := by
    unfold route
    split
    · exact .inl rfl
    · split
      · exact .inl rfl
      · exact .inr rfl
  unfold controlOnce serve
  dsimp only
  rw [hreq false]
  exact hresp _ _ hroute

theorem control_round_trip_init :
    (∀ closed, readRequest ⟨request ⟨"127.0.0.1:8080".toList, by simp⟩ "POST".toList
        "/init?x=1".toList [13, 10, 13, 10], closed⟩ =
      .ok ⟨"POST".toList, "/init".toList, [13, 10, 13, 10]⟩) ∧
    readResponse (response 200 "a\r\n\r\nb".toList) = .ok (200, [97, 13, 10, 13, 10, 98]) := by
  have h := control_round_trip ⟨"127.0.0.1:8080".toList, by simp⟩ "POST".toList
    "/init?x=1".toList [13, 10, 13, 10] (by simp) (not_isWhitespace_of_all rfl)
    (by simp) (not_isWhitespace_of_all rfl) (by decide) (by simp)
  exact ⟨h.1, h.2.1 200 "a\r\n\r\nb".toList (.inl rfl)⟩

end Http3Bench.Control
