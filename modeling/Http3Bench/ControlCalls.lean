import Http3Bench.Control
import Http3Bench.Sampling
import Http3Bench.Lib.Lookup

/-!
# Control requests that are retried

`control_request` of `benchcli-rust/src/ps.rs` against `control.rs` of the quiche server. An attempt
that the client gives up on is not gone: the connection is there, cut off somewhere, and the thread
the server has for it may answer it at any time, before or after the attempts that follow. The
sampler of the server takes its samples meanwhile. Still the server starts sampling at most once, and
what one `/ps` has answered is the beginning of what a later one answers.

`floor` and `earlier` are history: the samples there were when a call or an attempt began, and the
answers to `/ps` the client had by then.
-/

namespace Http3Bench.Control

open Text Lib

/-- What the two ends have `serde_json` do: the server reads `InitArgs` and writes the samples, the
client reads a `PsBody`. -/
structure Json where
  initArgs : List UInt8 → Option ℕ
  psText : Samples → List Char
  psBody : List UInt8 → Except String PsBody

/-! ### The server -/

/-- What `Sampler::start` meets: its first read of the process, the time a thread would start from, and
whether one can be spawned. -/
structure Outset where
  first : Except String (Duration × ℕ)
  began : Instant := 0
  spawn : Except String Unit := .ok ()

/-- A `Sampler` that was started. -/
structure Running where
  thread : Sampler.Thread
  interval : Duration

/-- The server's process; `starts` and `refused` count how `Sampler::start` ended. -/
structure Server where
  pid : ℕ
  sampler : Option Running := none
  starts : ℕ := 0
  refused : ℕ := 0

namespace Server

def samples (v : Server) : Samples := v.sampler.elim {} (·.thread.samples)

def pidText (v : Server) : List Char := Nat.toDigits 10 v.pid

/-- `init` with what its sampler meets. An interval of zero is a second. -/
def init (j : Json) (o : Outset) (v : Server) (body : List UInt8) : Server :=
  match v.sampler with
  | some _ => v
  | none =>
    let interval := (j.initArgs body).getD 0
    match Sampler.start v.pid o.first o.began o.spawn with
    | .ok thread => { v with
        sampler := some ⟨thread, if interval = 0 then second else interval⟩
        starts := v.starts + 1 }
    | .error _ => { v with refused := v.refused + 1 }

def ps (j : Json) (v : Server) : List Char := j.psText v.samples

/-- The lock is held while a request is answered. -/
def handle (j : Json) (o : Outset) (v : Server) (r : Request) : List UInt8 × Server :=
  let (status, reply) := route (fun _ => v.pidText) (v.ps j) r
  (response status reply, if r.path = "/init".toList then v.init j o r.body else v)

/-- The sampler's thread reads the process. -/
def sample (v : Server) (read : Sampler.Read) : Server :=
  { v with sampler := v.sampler.map (fun r => { r with thread := r.thread.sample read }) }

end Server

/-! ### The client -/

/-- What the client asks for; `init` with the interval in nanoseconds. -/
inductive Ask
  | init (interval : ℕ) (fits : interval < 2 ^ 128)
  | ps

namespace Ask

def method : Ask → List Char
  | init .. => "POST".toList
  | ps => "GET".toList

def path : Ask → List Char
  | init .. => "/init".toList
  | ps => "/ps".toList

def body : Ask → List UInt8
  | init interval _ =>
    encode ("\x7b\"PsInterval\":".toList ++ Nat.toDigits 10 interval ++ "\x7d".toList)
  | ps => []

end Ask

/-- `control_request` failed: with the status of a reply that is not 200, or as the last of its
attempts did. -/
inductive Failure
  | status (code : ℕ) (body : List UInt8)
  | last (e : ControlError)

def attempts : ℕ := 4

structure Call where
  ask : Ask
  attempt : ℕ := 0
  /-- The connection of the attempt under way. -/
  link : Option ℕ := none
  outcome : Option (Except Failure (List UInt8)) := none
  floor : Samples
  earlier : List (List UInt8)

namespace Call

/-- The attempt failed, and was it the last one? -/
def failed (c : Call) (e : ControlError) : Call :=
  { c with
    link := none
    outcome := if c.attempt < attempts then none else some (.error (.last e)) }

/-- `control_once` returned. -/
def hear (c : Call) : Except ControlError (ℕ × List UInt8) → Call
  | .ok (status, body) => { c with
      link := none
      outcome := some (if status = 200 then .ok body else .error (.status status body)) }
  | .error e => c.failed e

/-- The answer to a `/ps`. -/
def told (c : Call) : Option (List UInt8) :=
  match c.ask, c.outcome with
  | .ps, some (.ok body) => some body
  | _, _ => none

end Call

inductive Fate
  | waiting
  | answered (resp : List UInt8)
  /-- The thread of the server ended with an error. -/
  | failed

/-- A connection to the control port; `live` while the call it belongs to waits for its answer. -/
structure Link where
  call : ℕ
  ask : Ask
  live : Bool := true
  fate : Fate := .waiting
  floor : Samples

/-- What the server's thread gets to read: the request, or the part of it that was written before the
client closed the connection. -/
def Link.Sees (addr : Peer) (k : Link) (input : Input) : Prop :=
  let bytes := request addr k.ask.method k.ask.path k.ask.body
  if k.live then input = ⟨bytes, false⟩ else input.bytes <+: bytes ∧ input.closed = true

structure Dialogue where
  server : Server
  calls : List Call := []
  links : List Link := []

namespace Dialogue

/-- The thread of connection `l` has read `input` and answers. -/
def serve (j : Json) (s : Dialogue) (l : ℕ) (k : Link) (input : Input) (o : Outset) :
    Dialogue :=
  match readRequest input with
  | .error _ => { s with links := s.links.set l { k with fate := .failed } }
  | .ok r =>
    let (resp, v) := s.server.handle j o r
    { s with server := v, links := s.links.set l { k with fate := .answered resp } }

inductive Step (j : Json) (addr : Peer) : Dialogue → Dialogue → Prop
  | call {s : Dialogue} (ask : Ask) :
      Step j addr s { s with
        calls := s.calls ++
          [{ ask, floor := s.server.samples, earlier := s.calls.filterMap Call.told }] }
  | attempt {s : Dialogue} {i : ℕ} {c : Call} :
      s.calls[i]? = some c → c.link = none → c.outcome = none → c.attempt < attempts →
      Step j addr s { s with
        calls := s.calls.set i { c with attempt := c.attempt + 1, link := some s.links.length }
        links := s.links ++ [{ call := i, ask := c.ask, floor := s.server.samples }] }
  | serve {s : Dialogue} {l : ℕ} {k : Link} {input : Input} (o : Outset) :
      s.links[l]? = some k → k.fate = .waiting → k.Sees addr input →
      Step j addr s (s.serve j l k input o)
  /-- The server's thread fails before it has answered. -/
  | broke {s : Dialogue} {l : ℕ} {k : Link} :
      s.links[l]? = some k → k.fate = .waiting →
      Step j addr s { s with links := s.links.set l { k with fate := .failed } }
  | hear {s : Dialogue} {i l : ℕ} {c : Call} {k : Link} {resp : List UInt8} :
      s.calls[i]? = some c → c.link = some l → s.links[l]? = some k → k.fate = .answered resp →
      Step j addr s { s with
        calls := s.calls.set i (c.hear (readResponse resp))
        links := s.links.set l { k with live := false } }
  /-- The attempt ends with an error of the connection or with a timeout. -/
  | giveUp {s : Dialogue} {i l : ℕ} {c : Call} {k : Link} (e : String) :
      s.calls[i]? = some c → c.link = some l → s.links[l]? = some k →
      Step j addr s { s with
        calls := s.calls.set i (c.failed (.io e))
        links := s.links.set l { k with live := false } }
  | sample {s : Dialogue} (read : Sampler.Read) :
      Step j addr s { s with server := s.server.sample read }

def Reach (j : Json) (addr : Peer) (pid : ℕ) (s : Dialogue) : Prop :=
  Relation.ReflTransGen (Step j addr) { server := { pid } } s

end Dialogue

/-- `str::parse` to an `i32`. -/
def parseI32 : List Char → Option ℤ
  | '-' :: rest =>
    if rest.head? = some '+' then none else (parseUnsigned (2 ^ 31) rest).map (fun n => -Int.ofNat n)
  | s => (parseUnsigned (2 ^ 31 - 1) s).map Int.ofNat

/-- What `Remote::init` makes of the reply. -/
def pidOf (resp : List UInt8) : Option ℤ := parseI32 (trim (lossy resp))

/-! ### What the server does to its samples -/

/-- `t` is `s` with later samples. -/
structure Before (s t : Samples) : Prop where
  cpu : s.cpu <+: t.cpu
  rss : s.rss <+: t.rss

theorem Before.refl (s : Samples) : Before s s := ⟨List.prefix_refl _, List.prefix_refl _⟩

theorem Before.trans {s t u : Samples} (h : Before s t) (h' : Before t u) : Before s u :=
  ⟨h.cpu.trans h'.cpu, h.rss.trans h'.rss⟩

namespace Server

/-- The sampler is never taken back and never started anew. -/
structure Grows (v v' : Server) : Prop where
  pid : v'.pid = v.pid
  samples : Before v.samples v'.samples
  sampler : ∀ r, v.sampler = some r → ∃ reads, v'.sampler = some { r with thread := r.thread.run reads }
  refused : v.refused ≤ v'.refused

variable {v v' v'' : Server}

theorem Grows.refl (v : Server) : v.Grows v :=
  ⟨rfl, .refl _, fun _ hr => ⟨[], hr⟩, le_rfl⟩

theorem Grows.trans (h : v.Grows v') (h' : v'.Grows v'') : v.Grows v'' := by
  refine ⟨h'.pid.trans h.pid, h.samples.trans h'.samples, fun r hr => ?_, h.refused.trans h'.refused⟩
  obtain ⟨reads, hv'⟩ := h.sampler r hr
  obtain ⟨more, hv''⟩ := h'.sampler _ hv'
  refine ⟨reads ++ more, ?_⟩
  rw [hv'']
  simp [Sampler.Thread.run]

theorem Grows.isSome (h : v.Grows v') (hs : v.sampler.isSome) : v'.sampler.isSome := by
  obtain ⟨r, hr⟩ := Option.isSome_iff_exists.mp hs
  obtain ⟨reads, hv'⟩ := h.sampler r hr
  rw [hv']
  rfl

/-- The sampler has been started as often as it runs. -/
def Once (v : Server) : Prop := v.starts = if v.sampler.isSome then 1 else 0

theorem init_some {j : Json} {o : Outset} {r : Running} (h : v.sampler = some r)
    (body : List UInt8) : v.init j o body = v := by
  unfold init
  rw [h]

/-- The first call of `init`: a sampler is started, or it could not be. -/
theorem init_none (j : Json) (o : Outset) (h : v.sampler = none) (body : List UInt8) :
    (∃ r, v.init j o body = { v with sampler := some r, starts := v.starts + 1 }) ∨
      v.init j o body = { v with refused := v.refused + 1 } := by
  unfold init
  rw [h]
  dsimp only
  split
  · exact .inl ⟨_, rfl⟩
  · exact .inr rfl

theorem grows_init (j : Json) (o : Outset) (v : Server) (body : List UInt8) :
    v.Grows (v.init j o body) := by
  cases hs : v.sampler with
  | some r =>
    rw [init_some hs]
    exact .refl v
  | none =>
    have hnone : v.samples = {} := by
      unfold samples
      rw [hs]
      rfl
    have hbefore : ∀ t, Before v.samples t := fun t => by
      rw [hnone]
      exact ⟨List.nil_prefix, List.nil_prefix⟩
    rcases init_none j o hs body with ⟨r, hr⟩ | hr
    · rw [hr]
      exact ⟨rfl, hbefore _, fun r hr => absurd (hs.symm.trans hr) (by simp), le_rfl⟩
    · rw [hr]
      exact ⟨rfl, .refl _, fun r hr => absurd (hs.symm.trans hr) (by simp), Nat.le_succ _⟩

theorem once_init (j : Json) (o : Outset) (h : v.Once) (body : List UInt8) :
    (v.init j o body).Once := by
  cases hs : v.sampler with
  | some r =>
    rw [init_some hs]
    exact h
  | none =>
    unfold Once at h ⊢
    rw [hs] at h
    rcases init_none j o hs body with ⟨r, hr⟩ | hr
    · rw [hr]
      simpa using h
    · rw [hr]
      simpa [hs] using h

/-- After an `/init` the sampler runs, or it could not be started. -/
theorem init_started (j : Json) (o : Outset) (v : Server) (body : List UInt8) :
    (v.init j o body).sampler.isSome ∨ 0 < (v.init j o body).refused := by
  cases hs : v.sampler with
  | some r =>
    rw [init_some hs, hs]
    exact .inl rfl
  | none =>
    rcases init_none j o hs body with ⟨r, hr⟩ | hr
    · rw [hr]
      exact .inl rfl
    · rw [hr]
      exact .inr (Nat.succ_pos _)

theorem grows_sample (v : Server) (read : Sampler.Read) : v.Grows (v.sample read) := by
  refine ⟨rfl, ?_, fun r hr => ⟨[read], ?_⟩, le_rfl⟩
  · unfold samples sample
    cases v.sampler with
    | none => exact .refl _
    | some r =>
      simp only [Option.map_some, Option.elim_some]
      unfold Sampler.Thread.sample
      split
      · exact .refl _
      · split
        · exact ⟨List.prefix_append _ _, List.prefix_append _ _⟩
        · dsimp only
          split
          · exact .refl _
          · exact .refl _
  · unfold sample
    rw [hr]
    rfl

theorem once_sample (h : v.Once) (read : Sampler.Read) : (v.sample read).Once := by
  unfold Once sample at *
  simpa using h

theorem grows_handle (j : Json) (o : Outset) (v : Server) (r : Request) :
    v.Grows (v.handle j o r).2 := by
  unfold handle
  dsimp only
  split
  · exact grows_init j o v r.body
  · exact .refl v

theorem once_handle (j : Json) (o : Outset) (h : v.Once) (r : Request) :
    (v.handle j o r).2.Once := by
  unfold handle
  dsimp only
  split
  · exact once_init j o h r.body
  · exact h

end Server

/-! ### What the calls are told -/

/-- The reply to `ask`, of which `floor` are the samples there were when it was asked: the pid, once
the sampler runs unless the process could not be read, or the samples at some time since. -/
def Ask.Told (j : Json) (v : Server) (floor : Samples) (reply : List Char) : Ask → Prop
  | .init .. => reply = v.pidText ∧ (v.sampler.isSome ∨ 0 < v.refused)
  | .ps => ∃ t, reply = j.psText t ∧ Before floor t ∧ Before t v.samples

variable {j : Json} {addr : Peer} {v v' : Server}

theorem Ask.Told.mono {floor floor' : Samples} {reply : List Char} {ask : Ask}
    (h : ask.Told j v floor reply) (hf : Before floor' floor) (hv : v.Grows v') :
    ask.Told j v' floor' reply := by
  cases ask with
  | init interval fits =>
    refine ⟨h.1.trans ?_, h.2.imp hv.isSome (fun hr => hr.trans_le hv.refused)⟩
    unfold Server.pidText
    rw [hv.pid]
  | ps =>
    obtain ⟨t, ht, hlo, hhi⟩ := h
    exact ⟨t, ht, hf.trans hlo, hhi.trans hv.samples⟩

structure Call.Ok (j : Json) (v : Server) (c : Call) : Prop where
  floor : Before c.floor v.samples
  earlier : ∀ body ∈ c.earlier, ∃ t, body = encode (j.psText t) ∧ Before t c.floor
  told : ∀ body, c.outcome = some (.ok body) →
    ∃ reply, body = encode reply ∧ c.ask.Told j v c.floor reply
  attempt : c.attempt ≤ attempts
  failed : ∀ f, c.outcome = some (.error f) → c.attempt = attempts ∧ ∃ e, f = .last e

structure Link.Ok (j : Json) (v : Server) (k : Link) : Prop where
  floor : Before k.floor v.samples
  answered : ∀ resp, k.live → k.fate = .answered resp →
    ∃ reply, resp = response 200 reply ∧ k.ask.Told j v k.floor reply

theorem Call.Ok.mono {c : Call} (h : c.Ok j v) (hv : v.Grows v') : c.Ok j v' := by
  refine ⟨h.floor.trans hv.samples, h.earlier, fun body hb => ?_, h.attempt, h.failed⟩
  obtain ⟨reply, hbody, htold⟩ := h.told body hb
  exact ⟨reply, hbody, htold.mono (.refl _) hv⟩

theorem Link.Ok.mono {k : Link} (h : k.Ok j v) (hv : v.Grows v') : k.Ok j v' := by
  refine ⟨h.floor.trans hv.samples, fun resp hl hf => ?_⟩
  obtain ⟨reply, hresp, htold⟩ := h.answered resp hl hf
  exact ⟨reply, hresp, htold.mono (.refl _) hv⟩

/-- A connection that the client does not wait for any more. -/
theorem Link.Ok.given {k : Link} (h : k.Ok j v) : Link.Ok j v { k with live := false } :=
  ⟨h.floor, fun _ hl _ => (by cases hl)⟩

theorem Call.Ok.fail {c : Call} (h : c.Ok j v) (e : ControlError) : (c.failed e).Ok j v := by
  refine ⟨h.floor, h.earlier, fun body hb => ?_, h.attempt, fun f hf => ?_⟩
  · simp only [Call.failed] at hb
    split at hb <;> cases hb
  · simp only [Call.failed] at hf ⊢
    split at hf
    · cases hf
    · cases hf
      have := h.attempt
      exact ⟨by omega, e, rfl⟩

theorem length_encode_le (s : List Char) : (encode s).length ≤ 4 * s.length := by
  induction s with
  | nil => simp
  | cons c s ih =>
    have hc := c.utf8Size_le_four
    rw [encode_cons, List.length_append, String.length_utf8EncodeChar, List.length_cons]
    omega

/-- A whole request is read as it was written. -/
theorem readRequest_ask (addr : Peer) (ask : Ask) (closed : Bool) :
    readRequest ⟨request addr ask.method ask.path ask.body, closed⟩ =
      .ok ⟨ask.method, ask.path, ask.body⟩ := by
  cases ask with
  | init interval fits =>
    refine readRequest_request addr (by simp [Ask.method]) (not_isWhitespace_of_all rfl)
      (by simp [Ask.path]) (not_isWhitespace_of_all rfl) ?_ (by simp [Ask.method]) closed
    have hdigits : (Nat.toDigits 10 interval).length ≤ 39 :=
      Nat.toDigits_length 10 interval 39 (by decide) (fits.trans (by decide))
    refine (length_encode_le _).trans ?_
    simp only [List.length_append]
    have hopen : "\x7b\"PsInterval\":".toList.length = 14 := by decide
    have hclose : "\x7d".toList.length = 1 := by decide
    omega
  | ps =>
    exact readRequest_request addr (by simp [Ask.method]) (not_isWhitespace_of_all rfl)
      (by simp [Ask.path]) (not_isWhitespace_of_all rfl) (Nat.zero_le _) (fun _ => rfl) closed

/-- The answer to a whole request. -/
theorem told_handle (o : Outset) (v : Server) (ask : Ask)
    {floor : Samples} (hf : Before floor v.samples) :
    ∃ reply, (v.handle j o ⟨ask.method, ask.path, ask.body⟩).1 = response 200 reply ∧
      ask.Told j (v.handle j o ⟨ask.method, ask.path, ask.body⟩).2 floor reply := by
  cases ask with
  | init interval fits =>
    refine ⟨v.pidText, rfl, ?_, ?_⟩
    · unfold Server.pidText
      rw [(v.grows_handle j o _).pid]
    · exact v.init_started j o _
  | ps => exact ⟨v.ps j, rfl, v.samples, rfl, hf, .refl _⟩

namespace Dialogue

/-- The connection `k` is that of the attempt call `i` has under way. -/
structure Owns (i : ℕ) (c : Call) (k : Link) : Prop where
  call : k.call = i
  live : k.live = true
  ask : k.ask = c.ask
  floor : Before c.floor k.floor

structure Inv (j : Json) (pid : ℕ) (s : Dialogue) : Prop where
  pid : s.server.pid = pid
  once : s.server.Once
  calls : ∀ {i : ℕ} {c : Call}, s.calls[i]? = some c → c.Ok j s.server
  links : ∀ {l : ℕ} {k : Link}, s.links[l]? = some k → k.Ok j s.server
  owns : ∀ {i l : ℕ} {c : Call}, s.calls[i]? = some c → c.link = some l →
    ∃ k, s.links[l]? = some k ∧ Owns i c k

variable {pid : ℕ} {s s' : Dialogue} {i l : ℕ} {c : Call} {k : Link}

theorem Inv.call (h : s.Inv j pid) (ask : Ask) :
    Inv j pid { s with calls := s.calls ++
      [{ ask, floor := s.server.samples, earlier := s.calls.filterMap Call.told }] } := by
  refine ⟨h.pid, h.once, fun hi => ?_, h.links, fun hi hl => ?_⟩
  · rcases getElem?_append_cases hi with ⟨-, rfl⟩ | hi
    · refine ⟨.refl _, fun body hb => ?_, fun _ hb => (by cases hb), Nat.zero_le _,
        fun _ hf => (by cases hf)⟩
      obtain ⟨c, hc, htold⟩ := List.mem_filterMap.mp hb
      obtain ⟨i, hi⟩ := List.mem_iff_getElem?.mp hc
      unfold Call.told at htold
      split at htold
      · rename_i hask hout
        obtain rfl := Option.some.inj htold
        obtain ⟨reply, hbody, ht⟩ := (h.calls hi).told _ hout
        rw [hask] at ht
        obtain ⟨t, rfl, -, hhi⟩ := ht
        exact ⟨t, hbody, hhi⟩
      · cases htold
    · exact h.calls hi
  · rcases getElem?_append_cases hi with ⟨-, rfl⟩ | hi
    · cases hl
    · exact h.owns hi hl

theorem Inv.attempt (h : s.Inv j pid) (hi : s.calls[i]? = some c) (hout : c.outcome = none)
    (hlt : c.attempt < attempts) :
    Inv j pid { s with
      calls := s.calls.set i { c with attempt := c.attempt + 1, link := some s.links.length }
      links := s.links ++ [{ call := i, ask := c.ask, floor := s.server.samples }] } := by
  have hok := h.calls hi
  refine ⟨h.pid, h.once, fun hk => ?_, fun hk => ?_, fun {i' l' c'} hk hl => ?_⟩
  · rcases getElem?_set_cases hk with ⟨-, rfl⟩ | ⟨-, hk⟩
    · exact ⟨hok.floor, hok.earlier, hok.told, hlt, fun f hf => absurd (hout.symm.trans hf) (by simp)⟩
    · exact h.calls hk
  · rcases getElem?_append_cases hk with ⟨-, rfl⟩ | hk
    · exact ⟨.refl _, fun _ _ hf => (by cases hf)⟩
    · exact h.links hk
  · rcases getElem?_set_cases hk with ⟨rfl, rfl⟩ | ⟨-, hk⟩
    · obtain rfl := Option.some.inj hl
      exact ⟨_, List.getElem?_concat_length, rfl, rfl, rfl, hok.floor⟩
    · obtain ⟨k, hlink, howns⟩ := h.owns hk hl
      exact ⟨k, getElem?_append_of_some hlink, howns⟩

/-- The server answers or fails on a connection, which changes nothing of it that its call knows. -/
theorem Inv.fate {v : Server} {fate : Fate} (h : s.Inv j pid) (hl : s.links[l]? = some k)
    (hv : s.server.Grows v) (honce : v.Once) (hk : Link.Ok j v { k with fate }) :
    Inv j pid { s with server := v, links := s.links.set l { k with fate } } := by
  refine ⟨hv.pid.trans h.pid, honce, fun hi => (h.calls hi).mono hv, fun hk' => ?_,
    fun {i l' c} hi hl' => ?_⟩
  · rcases getElem?_set_cases hk' with ⟨-, rfl⟩ | ⟨-, hk'⟩
    · exact hk
    · exact (h.links hk').mono hv
  · obtain ⟨k', hk', howns⟩ := h.owns hi hl'
    by_cases hll : l = l'
    · subst hll
      obtain rfl := Option.some.inj (hl.symm.trans hk')
      exact ⟨_, getElem?_set_of_some hl, howns.call, howns.live, howns.ask, howns.floor⟩
    · exact ⟨k', (List.getElem?_set_ne hll).trans hk', howns⟩

/-- The attempt of call `i` is over. -/
theorem Inv.settle {c' : Call} (h : s.Inv j pid) (hi : s.calls[i]? = some c) (hc : c.link = some l)
    (hl : s.links[l]? = some k) (hok : c'.Ok j s.server) (hnone : c'.link = none) :
    Inv j pid { s with
      calls := s.calls.set i c'
      links := s.links.set l { k with live := false } } := by
  refine ⟨h.pid, h.once, fun hk => ?_, fun hk => ?_, fun {i' l' c''} hk hl' => ?_⟩
  · rcases getElem?_set_cases hk with ⟨-, rfl⟩ | ⟨-, hk⟩
    · exact hok
    · exact h.calls hk
  · rcases getElem?_set_cases hk with ⟨-, rfl⟩ | ⟨-, hk⟩
    · exact (h.links hl).given
    · exact h.links hk
  · rcases getElem?_set_cases hk with ⟨-, rfl⟩ | ⟨hne, hk⟩
    · rw [hnone] at hl'
      cases hl'
    · obtain ⟨k', hk', howns⟩ := h.owns hk hl'
      obtain ⟨k₀, hk₀, hmine⟩ := h.owns hi hc
      -- a connection belongs to one call
      have hll : l ≠ l' := by
        rintro rfl
        obtain rfl := Option.some.inj (hk₀.symm.trans hk')
        exact hne (howns.call.symm.trans hmine.call)
      exact ⟨k', (List.getElem?_set_ne hll).trans hk', howns⟩

theorem Inv.serve (h : s.Inv j pid) (hl : s.links[l]? = some k) {input : Input}
    (hsees : k.Sees addr input) (o : Outset) : (s.serve j l k input o).Inv j pid := by
  have hk := h.links hl
  unfold Dialogue.serve
  cases hr : readRequest input with
  | error e => exact h.fate hl (.refl _) h.once ⟨hk.floor, fun _ _ hf => (by cases hf)⟩
  | ok r =>
    have hv := s.server.grows_handle j o r
    refine h.fate hl hv (Server.once_handle j o h.once r)
      ⟨hk.floor.trans hv.samples, fun resp hlive hf => ?_⟩
    -- the client waits, so all of its request has been read
    obtain rfl := Fate.answered.inj hf
    unfold Link.Sees at hsees
    rw [if_pos hlive] at hsees
    rw [hsees, readRequest_ask] at hr
    obtain rfl := Except.ok.inj hr
    exact told_handle o s.server k.ask hk.floor

theorem Inv.hear (h : s.Inv j pid) (hi : s.calls[i]? = some c) (hc : c.link = some l)
    (hl : s.links[l]? = some k) {resp : List UInt8} (hf : k.fate = .answered resp) :
    Inv j pid { s with
      calls := s.calls.set i (c.hear (readResponse resp))
      links := s.links.set l { k with live := false } } := by
  obtain ⟨k', hk', howns⟩ := h.owns hi hc
  obtain rfl := Option.some.inj (hl.symm.trans hk')
  obtain ⟨reply, rfl, htold⟩ := (h.links hl).answered resp howns.live hf
  have hok := h.calls hi
  rw [readResponse_response (by decide)]
  refine h.settle hi hc hl ⟨hok.floor, hok.earlier, fun body hb => ?_, hok.attempt, fun f hf => ?_⟩ rfl
  · obtain rfl := Except.ok.inj (Option.some.inj hb)
    rw [howns.ask] at htold
    exact ⟨reply, rfl, htold.mono howns.floor (.refl _)⟩
  · cases hf

theorem Step.inv (hs : Step j addr s s') (h : s.Inv j pid) : s'.Inv j pid := by
  cases hs with
  | call ask => exact h.call ask
  | attempt hi _ hout hlt => exact h.attempt hi hout hlt
  | serve o hl _ hsees => exact h.serve hl hsees o
  | broke hl =>
    exact h.fate hl (.refl _) h.once ⟨(h.links hl).floor, fun _ _ hf => (by cases hf)⟩
  | hear hi hc hl hf => exact h.hear hi hc hl hf
  | giveUp e hi hc hl => exact h.settle hi hc hl ((h.calls hi).fail _) rfl
  | sample read =>
    have hv := s.server.grows_sample read
    exact ⟨h.pid, Server.once_sample h.once read, fun hi => (h.calls hi).mono hv,
      fun hl => (h.links hl).mono hv, h.owns⟩

theorem Reach.inv (h : Reach j addr pid s) : s.Inv j pid := by
  induction h with
  | refl =>
    exact ⟨rfl, rfl, fun hi => (by simp at hi), fun hl => (by simp at hl), fun hi => (by simp at hi)⟩
  | tail _ hstep ih => exact hstep.inv ih

theorem Step.grows (hs : Step j addr s s') : s.server.Grows s'.server := by
  cases hs with
  | @serve l k input o =>
    unfold Dialogue.serve
    split
    · exact .refl _
    · exact s.server.grows_handle j o _
  | sample read => exact s.server.grows_sample read
  | _ => exact .refl _

theorem Run.grows (h : Relation.ReflTransGen (Step j addr) s s') : s.server.Grows s'.server := by
  induction h with
  | refl => exact .refl _
  | tail _ hstep ih => exact ih.trans hstep.grows

end Dialogue

theorem pidOf_pidText {pid : ℕ} (h : pid < 2 ^ 31) :
    pidOf (encode (Nat.toDigits 10 pid)) = some (pid : ℤ) := by
  have hd : ∀ c ∈ Nat.toDigits 10 pid, c.isDigit := fun c hc =>
    Nat.isDigit_of_mem_toDigits (by decide) (by decide) hc
  have htrim : trim (Nat.toDigits 10 pid) = Nat.toDigits 10 pid := by
    have hpad := @trim_padded [] (Nat.toDigits 10 pid) [] (by simp)
      (fun c hc => isWhitespace_of_isDigit (hd c hc)) Nat.toDigits_ne_nil (by simp)
    simpa using hpad
  unfold pidOf
  rw [lossy_encode, htrim]
  unfold parseI32
  split
  · rename_i rest hp
    exact absurd (hd '-' (hp ▸ List.mem_cons_self)) (by decide)
  · rw [parseUnsigned_toDigits (by omega)]
    rfl

/-- What the client can rely on, in any state of its dialogue with the server `pid`; `near` is what is
left of a number on its way through the text. -/
structure Reliable (j : Json) (near : ℚ → ℚ) (addr : Peer) (pid : ℕ) (s : Dialogue) : Prop where
  /-- The server starts sampling once at most, and what it has sampled stays. -/
  once : s.server.starts ≤ 1
  grows : ∀ s', Relation.ReflTransGen (Dialogue.Step j addr) s s' → s.server.Grows s'.server
  /-- A call fails only as its fourth attempt did, never with a status. -/
  attempts : ∀ c ∈ s.calls, c.attempt ≤ 4 ∧
    ∀ f, c.outcome = some (.error f) → c.attempt = 4 ∧ ∃ e, f = .last e
  init : ∀ c ∈ s.calls, ∀ interval fits body, c.ask = .init interval fits →
    c.outcome = some (.ok body) →
    pidOf body = some (pid : ℤ) ∧ (s.server.sampler.isSome ∨ 0 < s.server.refused)
  /-- A `/ps` is answered with all samples up to some time, and so with at least the samples that the
  client had read when it asked. -/
  ps : ∀ c ∈ s.calls, ∀ body, c.ask = .ps → c.outcome = some (.ok body) →
    ∃ t, samplesOf (j.psBody body) = .ok t ∧
      Before t ⟨s.server.samples.cpu.map near, s.server.samples.rss⟩ ∧
      ∀ old ∈ c.earlier, ∃ t₀, samplesOf (j.psBody old) = .ok t₀ ∧ Before t₀ t

/-- The text of an empty series, as `serde_json` writes it; other samples by their number. -/
def emptyText : List Char := "\x7b\"cpu\":[],\"mem\":[]\x7d".toList

def numbered : Json where
  initArgs := fun _ => some 1000000
  psText := fun t =>
    if t = {} then emptyText else Nat.toDigits 10 (Encodable.encode (t.cpu, t.rss))
  psBody := fun b =>
    if b = encode emptyText then .ok ⟨some [], some []⟩
    else match Encodable.decode (α := List ℚ × List ℕ) (Nat.ofDigitChars 10 (lossy b) 0) with
      | some t => .ok ⟨some t.1, some t.2⟩
      | none => .error "expected value"

theorem psBody_numbered (t : Samples) :
    numbered.psBody (encode (numbered.psText t)) = .ok ⟨some (t.cpu.map id), some t.rss⟩ := by
  by_cases ht : t = {}
  · subst ht
    simp [numbered]
  · have hne : encode (Nat.toDigits 10 (Encodable.encode (t.cpu, t.rss))) ≠ encode emptyText := by
      intro heq
      have htext := congrArg lossy heq
      rw [lossy_encode, lossy_encode] at htext
      have hmem : '"' ∈ Nat.toDigits 10 (Encodable.encode (t.cpu, t.rss)) := by
        rw [htext]
        decide
      exact absurd (Nat.isDigit_of_mem_toDigits (by decide) (by decide) hmem) (by decide)
    simp only [numbered, if_neg ht, if_neg hne, lossy_encode, Nat.ofDigitChars_ten_toDigits,
      Encodable.encodek, List.map_id]

/-- A connection that has delivered its whole request is served. -/
theorem Dialogue.Step.served {s : Dialogue} {l : ℕ} {k : Link}
    (o : Outset) (hl : s.links[l]? = some k) (hf : k.fate = .waiting) :
    let out := s.server.handle j o ⟨k.ask.method, k.ask.path, k.ask.body⟩
    Step j addr s { s with
      server := out.2, links := s.links.set l { k with fate := .answered out.1 } } := by
  have hsees : k.Sees addr ⟨request addr k.ask.method k.ask.path k.ask.body, !k.live⟩ := by
    unfold Link.Sees
    split
    · rename_i hlive
      rw [hlive]
      rfl
    · rename_i hlive
      exact ⟨List.prefix_refl _, by simpa using hlive⟩
  have hstep := Dialogue.Step.serve (j := j) o hl hf hsees
  unfold Dialogue.serve at hstep
  rw [readRequest_ask] at hstep
  exact hstep

def nearbyPeer : Peer := ⟨"127.0.0.1:8080".toList, by simp⟩

end Http3Bench.Control
