import Http3Bench.Thread

/-!
# A platform with a script

A kernel that gives its answers in the order they are written down, and a QUIC connection that is
in the state its last datagram names. Runs on it are evaluated, not only reasoned about.
-/

namespace Http3Bench

/-- What the kernel will answer: the events of each poll, the datagrams of each readable socket, and
whether `bind` and `register` succeed; once a list runs out nothing happens and nothing fails. -/
structure Script where
  polls : List (List Token) := []
  inbox : List (List Body × Option String) := []
  binds : List Bool := []
  registers : List Bool := []

/-- What a call that the script may let fail answers. -/
def Script.answer {α : Type} (ok : Bool) (a : α) (err : String) : Except String α :=
  if ok then .ok a else .error err

/-- The states of a connection, by the datagrams that lead to them: the handshake is done, the first
request or a round trip is answered, the connection is closed, the server takes no more requests. -/
inductive Peer
  | silent
  | established
  | answering (body : Body)
  | closed
  | leaving
  deriving DecidableEq

def Peer.ofDatagram : Body → Peer
  | 1 :: _ => .established
  | 2 :: body => .answering body
  | 3 :: _ => .closed
  | 4 :: _ => .leaving
  | _ => .silent

/-- The answer to the request on `stream`. -/
def okEvents (stream : ℕ) (body : Body) : List (ℕ × H3Event) :=
  [(stream, .headers [(statusName, [50, 48, 48])]), (stream, .data [body]), (stream, .finished)]

/-- The HTTP/3 connection is the number of requests sent. -/
def loopback : Platform where
  Os := Script
  Q := Peer
  H3 := ℕ
  elapsed := fun o => (1, o)
  poll := fun _ o => (o.polls.headD [], { o with polls := o.polls.tail })
  bind := fun _ o => (Script.answer (o.binds.headD true) 3 "no port", { o with binds := o.binds.tail })
  connect := fun _ _ o => (.ok (), o)
  localAddr := fun _ o => (.ok ⟨true, "10.0.0.1:40000"⟩, o)
  register := fun _ _ o =>
    (Script.answer (o.registers.headD true) () "no memory", { o with registers := o.registers.tail })
  deregister := fun _ o => o
  recvAll := fun _ o => (o.inbox.headD ([], none), { o with inbox := o.inbox.tail })
  sendAnswers := fun _ o => ([], o)
  limiterTake := fun _ o => (none, o)
  quicheConnect := fun _ _ _ o => (.ok .silent, o)
  isClosed := fun q => q = .closed
  isEstablished := fun q => q ≠ .silent
  isTimedOut := fun _ => false
  peerError := fun _ => none
  localError := fun _ => none
  timeoutInstant := fun _ => none
  peerStreamsLeftBidi := fun _ => 100
  recv := fun _ _ d _ => .ofDatagram d
  send := fun q => (.done, q)
  onTimeout := fun _ q => q
  close := fun _ _ _ q => q
  sendAckEliciting := fun q => q
  withTransport := fun q => (.ok 0, q)
  sendRequest := fun _ _ h q =>
    if q = .leaving then (.error (.other "RequestRejected"), h, q) else (.ok h, h + 1, q)
  sendBody := fun _ body _ h q => (.ok body.length, h, q)
  pollAll := fun h q => match q with
    | .answering body => ((okEvents (h - 1) body, none), h, .established)
    | q => (([], none), h, q)
  drainOrder := fun l => l
  drainOrder_perm := fun _ => .refl _

def loopbackConfig : EngineConfig where
  addrs := [⟨true, "10.0.0.2:3000"⟩]
  authority := "10.0.0.2:3000"
  serverName := none
  dialTimeout := second
  dialRetries := 1
  dialRetryInterval := 0
  idleTimeout := second
  check := true

variable {P : Platform}

namespace Thread

/-- The thread after `n` turns, unless it panics. -/
def turns : ℕ → Thread P → Option (Thread P)
  | 0, t => some t
  | n + 1, t => match turn t.pt t.w with
    | .ok pt w => turns n ⟨w, pt⟩
    | .error _ _ => none

/-- The thread after it was handed `cmd`, if it could be. -/
def hand (cmd : Command) (t : Thread P) : Option (Thread P) :=
  match t.w.phase, t.w.rx, t.w.given.any Command.isStop with
  | .idle, [], false => some ⟨t.w.give cmd, t.pt⟩
  | _, _, _ => none

/-- The thread after it was handed each command in turn and has taken so many turns on it. -/
def play : List (Command × ℕ) → Thread P → Option (Thread P)
  | [], t => some t
  | (cmd, n) :: rest, t => ((t.hand cmd).bind (turns n)).bind (play rest)

/-- Whether the next turn panics with `p`. -/
def panics (p : Panic) (t : Thread P) : Bool :=
  match turn t.pt t.w with
  | .error q _ => q = p
  | .ok _ _ => false

variable {cfg : EngineConfig} {t t' : Thread P}

theorem exists_of_panics {p : Panic} (h : t.panics p) : ∃ w', turn t.pt t.w = .error p w' := by
  unfold panics at h
  split at h
  · rename_i q w' hturn
    exact ⟨w', of_decide_eq_true h ▸ hturn⟩
  · cases h

theorem Reach.start (cfg : EngineConfig) (os : P.Os) (now : Instant) : (new cfg os now).Reach cfg :=
  ⟨os, now, .refl⟩

theorem Reach.turns {n : ℕ} (h : t.Reach cfg) (hn : t.turns n = some t') : t'.Reach cfg := by
  induction n generalizing t with
  | zero => exact Option.some.inj hn ▸ h
  | succ n ih =>
    unfold Thread.turns at hn
    split at hn
    · rename_i pt w hturn
      obtain ⟨os, now, hrun⟩ := h
      exact ih ⟨os, now, hrun.tail (.turn hturn)⟩ hn
    · cases hn

theorem Reach.hand {cmd : Command} (h : t.Reach cfg) (hc : t.hand cmd = some t') : t'.Reach cfg := by
  unfold Thread.hand at hc
  split at hc
  · rename_i hp hrx hg
    obtain ⟨os, now, hrun⟩ := h
    refine ⟨os, now, Option.some.inj hc ▸ hrun.tail (.command cmd hp hrx (fun hs => ?_))⟩
    have := List.any_eq_true.mpr ⟨_, hs, show Command.isStop .stop = true from rfl⟩
    rw [hg] at this
    cases this
  · cases hc

theorem Reach.play {l : List (Command × ℕ)} (h : t.Reach cfg) (hl : t.play l = some t') :
    t'.Reach cfg := by
  induction l generalizing t with
  | nil => exact Option.some.inj hl ▸ h
  | cons a rest ih =>
    obtain ⟨t₂, ht₂, hrest⟩ := Option.bind_eq_some_iff.mp hl
    obtain ⟨t₁, ht₁, hturns⟩ := Option.bind_eq_some_iff.mp ht₂
    exact ih ((h.hand ht₁).turns hturns) hrest

/-- A run that is evaluated to a thread with the property `p`. -/
theorem exists_reach (cfg : EngineConfig) (os : P.Os) (now : Instant) (l : List (Command × ℕ))
    (p : Thread P → Bool) (h : ((new cfg os now).play l).any p) :
    ∃ t : Thread P, t.Reach cfg ∧ p t := by
  cases hl : (new cfg os now).play l with
  | none => simp [hl] at h
  | some t => exact ⟨t, (Reach.start cfg os now).play hl, by simpa [hl] using h⟩

end Thread
end Http3Bench
