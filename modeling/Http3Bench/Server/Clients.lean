import Http3Bench.Server.Table

/-!
# What holds of every client

Whatever happens to a worker changes one client at a time: it is admitted, it reads an event, it sends
what is left of its responses, or only its connection and its timers change. An invariant of these
holds of every client of a reachable worker.
-/

namespace Http3Bench.Server

variable {P : ServerPlatform}

/-- What holds of a client when it is admitted and is kept by whatever happens to it. Only an event,
the setup and the sending of responses touch the HTTP/3 connection. -/
structure Client.Lasts (I : Client P → Prop) : Prop where
  new : ∀ q s ids, I { conn := q, sock := s, ids := ids }
  frame : ∀ c q d t b, I c → I { c with conn := q, deadline := d, scheduled := t, dirty := b }
  setup : ∀ c, I c → I c.setup
  idle : ∀ c h, c.h3 = some h → (P.poll h c.conn).1 = none → I c →
    I { c with h3 := some (P.poll h c.conn).2.1, conn := (P.poll h c.conn).2.2 }
  event : ∀ c h ev, c.h3 = some h → (P.poll h c.conn).1 = some ev → I c →
    I ({ c with conn := (P.poll h c.conn).2.2 }.onEvent (P.poll h c.conn).2.1 ev)
  resumed : ∀ c, I c → I c.resumed

/-- What is kept whatever becomes of the HTTP/3 connection. -/
structure Client.Kept (I : Client P → Prop) : Prop where
  new : ∀ q s ids, I { conn := q, sock := s, ids := ids }
  frame : ∀ c q h d t b, I c →
    I { c with conn := q, h3 := h, deadline := d, scheduled := t, dirty := b }
  event : ∀ c h ev, I c → I (c.onEvent h ev)
  resumed : ∀ c, I c → I c.resumed

theorem Client.Kept.lasts {I : Client P → Prop} (h : Kept I) : Lasts I where
  new := h.new
  frame := fun c q d t b hc => h.frame c q c.h3 d t b hc
  setup := fun c hc => by
    unfold Client.setup
    split
    · exact h.frame c _ _ c.deadline c.scheduled c.dirty hc
    · exact hc
  idle := fun c _ _ _ hc => h.frame c _ _ c.deadline c.scheduled c.dirty hc
  event := fun c _ ev _ _ hc =>
    h.event _ _ ev (h.frame c _ c.h3 c.deadline c.scheduled c.dirty hc)
  resumed := h.resumed

theorem Client.seen_onEvent (c : Client P) (h : P.H3) (ev : ℕ × H3Event) :
    (c.onEvent h ev).seen = c.seen ++ [ev] := by
  obtain ⟨sid, ev⟩ := ev
  cases ev with
  | data reads =>
    simp only [onEvent]
    split <;> rfl
  | finished =>
    simp only [onEvent]
    split <;> rfl
  | _ => rfl

namespace Client.Lasts

variable {I : Client P → Prop} {c : Client P}

theorem polled (h : Lasts I) (n : ℕ) (hc : I c) : I (c.polled n) := by
  induction n generalizing c with
  | zero => exact hc
  | succ n ih =>
    unfold Client.polled
    split
    · exact hc
    · rename_i h3 hh
      dsimp only
      split
      · exact h.idle c h3 hh ‹_› hc
      · exact ih (h.event c h3 _ hh ‹_› hc)

theorem process (h : Lasts I) (hc : I c) : I c.process := by
  have hsetup := h.setup c hc
  unfold Client.process
  split
  · exact hsetup
  · exact h.resumed _ (h.polled _ hsetup)

theorem sendLoop (h : Lasts I) (answers : List Bool) (hc : I c) : I (c.sendLoop answers) := by
  have put : ∀ {c : Client P} q, I c → I { c with conn := q } := fun {c} q hc =>
    h.frame c q c.deadline c.scheduled c.dirty hc
  induction answers generalizing c with
  | nil =>
    unfold Client.sendLoop
    split <;> exact put _ hc
  | cons a rest ih =>
    unfold Client.sendLoop
    split
    · cases a with
      | true => exact ih (put _ hc)
      | false => exact put _ hc
    · exact put _ hc
    · exact put _ hc

end Client.Lasts

namespace Worker

variable {I : Client P → Prop} {w w' : Worker P} {i : ℕ} {c : Client P}

/-- The clients after a slot has changed. -/
theorem forall_set {s : Option (Client P)} (h : ∀ k c, w.client k = some c → I c)
    (hs : w'.clients = w.clients.set i s) (hI : ∀ c, s = some c → I c) :
    ∀ k c, w'.client k = some c → I c := by
  intro k c hk
  unfold client at hk
  rw [hs, List.getElem?_set] at hk
  split at hk
  · split at hk
    · exact hI c (by simpa using hk)
    · cases hk
  · exact h k c hk

theorem forall_deliver (hk : Client.Lasts I) (h : ∀ k c, w.client k = some c → I c) (s : ℕ)
    (sender : SocketAddr) (data : Body) :
    ∀ k c, (w.deliver i s sender data).client k = some c → I c := by
  unfold deliver
  split
  · exact h
  · rename_i c hc
    refine forall_set h rfl (fun c' hc' => Option.some.inj hc' ▸ ?_)
    have hrecv := h i c hc
    exact hk.frame _ _ _ _ true
      (hk.process (hk.frame c _ c.deadline c.scheduled c.dirty hrecv))

theorem forall_enrol (hk : Client.Lasts I) (h : ∀ k c, w.client k = some c → I c) (s : ℕ)
    (scid odcid : ConnectionId) (q : P.Q) :
    ∀ k c, (w.enrol s scid odcid q).2.client k = some c → I c := by
  have halloc : ∀ k c, w.allocSlot.2.client k = some c → I c := by
    unfold allocSlot
    split
    · exact h
    · intro k c hc
      rw [client_append rfl] at hc
      exact h k c hc
  exact forall_set halloc rfl (fun c hc => Option.some.inj hc ▸ hk.new q s _)

theorem forall_flush (hk : Client.Lasts I) (h : ∀ k c, w.client k = some c → I c) (i : ℕ) :
    ∀ k c, (w.flush i).client k = some c → I c := by
  unfold flush
  split
  · exact h
  · rename_i c hc
    have hsent : I ({ c with dirty := false }.sendLoop (P.sendAnswers c.sock w.os).1) :=
      hk.sendLoop _ (hk.frame c c.conn c.deadline c.scheduled false (h i c hc))
    have hset : ∀ k c', ({ w with
        clients := w.clients.set i (some ({ c with dirty := false }.sendLoop
          (P.sendAnswers c.sock w.os).1))
        os := (P.sendAnswers c.sock w.os).2 } : Worker P).client k = some c' → I c' :=
      forall_set h rfl (fun c' hc' => Option.some.inj hc' ▸ hsent)
    dsimp only
    split
    · unfold remove
      split
      · exact hset
      · exact forall_set hset rfl (fun c' hc' => by cases hc')
    · unfold schedule
      split
      · exact forall_set hset rfl (fun c' hc' => Option.some.inj hc' ▸
          hk.frame _ _ none _ _ hsent)
      · split <;> exact forall_set hset rfl (fun c' hc' => Option.some.inj hc' ▸
          hk.frame _ _ _ _ _ hsent)

theorem Step.forall_clients (hk : Client.Lasts I) (hs : Step w w')
    (h : ∀ k c, w.client k = some c → I c) : ∀ k c, w'.client k = some c → I c := by
  cases hs with
  | datagram s sender data =>
    unfold onDatagram
    split
    · exact h
    · split
      · exact forall_deliver hk h s sender data
      · split
        · exact h
        · split
          · exact h
          · dsimp only
            split
            · exact h
            · refine forall_deliver hk (forall_enrol hk ?_ s _ _ _) s sender data
              exact h
  | flush =>
    unfold flushNext
    split
    · exact h
    · refine forall_flush hk ?_ _
      exact h
  | fire now =>
    unfold fireNext
    split
    · exact h
    · split
      · exact h
      · dsimp only
        split
        · exact h
        · split
          · exact h
          · rename_i c hc _
            exact forall_set h rfl (fun c' hc' => Option.some.inj hc' ▸
              hk.frame c _ c.deadline none true (h _ c hc))
  | os o => exact h

/-- What lasts of single clients holds of every client of a reachable worker. -/
theorem Reach.forall_lasts (hk : Client.Lasts I) (h : w.Reach) (hc : w.client i = some c) : I c := by
  obtain ⟨sockets, os, hrun⟩ := h
  revert hc
  suffices ∀ k c, w.client k = some c → I c from this i c
  induction hrun with
  | refl => simp [new, client]
  | tail _ hs ih => exact hs.forall_clients hk ih

theorem Reach.forall_clients (hk : Client.Kept I) (h : w.Reach) (hc : w.client i = some c) : I c :=
  h.forall_lasts hk.lasts hc

end Worker
end Http3Bench.Server
