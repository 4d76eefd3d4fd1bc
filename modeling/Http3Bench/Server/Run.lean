import Http3Bench.Lib.Heap
import Http3Bench.Server.Table

/-!
# The loop of a server worker

`run` polls, reads the sockets that have something, fires the timers that are due and flushes the
connections that were touched. The heap of timers is lazy: an entry stays when its deadline moves and
when its connection is gone, and the slot may be taken again. A connection that was touched is on the
list of dirty ones; any other has a timer on the heap that is early enough.
-/

namespace Http3Bench.Server

variable {P : ServerPlatform}

/-- What `recv_from` answers: an error other than that it would block is passed over. -/
inductive Recv
  | datagram (sender : SocketAddr) (data : Body)
  | wouldBlock
  | failed

def readBudget : ℕ := 1024

namespace Worker

/-- The loop of `read_socket`: whether the socket is read until it would block. A socket has nothing
more once its answers are used up. -/
def readSocketWithin (s : ℕ) : ℕ → List Recv → Worker P → Bool × Worker P
  | 0, _, w => (false, w)
  | n + 1, .datagram sender data :: rest, w => readSocketWithin s n rest (w.onDatagram s sender data)
  | n + 1, .failed :: rest, w => readSocketWithin s n rest w
  | _ + 1, .wouldBlock :: _, w => (true, w)
  | _ + 1, [], w => (true, w)

def readSocket (w : Worker P) (s : ℕ) (answers : List Recv) : Bool × Worker P :=
  readSocketWithin s readBudget answers w

/-- No turn puts an entry on the heap, so as many turns as it has entries are enough. -/
def fireTimers (w : Worker P) (now : Instant) : Worker P :=
  (fun w => w.fireNext now)^[w.timers.length] w

/-- No turn puts a slot on the list. -/
def flushDirty (w : Worker P) : Worker P := flushNext^[w.dirty.length] w

end Worker

/-- A worker at the top of its loop, with the sockets that are not read to the end. -/
structure Loop (P : ServerPlatform) where
  worker : Worker P
  unread : List ℕ := []

/-- What a pass of the loop meets: the kernel after the poll, the sockets it reports, what each has
to be read, and when the timers are fired. -/
structure Pass (P : ServerPlatform) where
  os : P.Os
  tokens : List ℕ
  answers : ℕ → List Recv
  now : Instant

namespace Loop

/-- The timeout of a poll that is made at `now`. -/
def pollTimeout (x : Loop P) (now : Instant) : Option Duration :=
  if x.unread ≠ [] then some 0 else (x.worker.timers.head?.map Prod.fst).map (fun t => t - now)

def addTokens (unread tokens : List ℕ) : List ℕ :=
  tokens.foldl (fun unread s => if s ∈ unread then unread else unread ++ [s]) unread

def readSockets (answers : ℕ → List Recv) : List ℕ → Loop P → Loop P
  | [], x => x
  | s :: rest, x =>
    let r := x.worker.readSocket s (answers s)
    readSockets answers rest ⟨r.2, if r.1 then x.unread else x.unread ++ [s]⟩

/-- One pass of the loop of `run`. -/
def pass (x : Loop P) (p : Pass P) : Loop P :=
  let y := readSockets p.answers (addTokens x.unread p.tokens) ⟨{ x.worker with os := p.os }, []⟩
  ⟨(y.worker.fireTimers p.now).flushDirty, y.unread⟩

/-- A worker that is about to poll. -/
inductive Polls : Loop P → Prop
  | new (sockets : List SocketAddr) (os : P.Os) : Polls ⟨Worker.new sockets os, []⟩
  | pass {x : Loop P} (p : Pass P) : Polls x → Polls (x.pass p)

end Loop

/-! ### The timer of a client -/

/-- A client in slot `i` of `w` that was touched is on the list of dirty ones; another one is open,
and its timer is early enough. -/
structure Client.Tended (c : Client P) (w : Worker P) (i : ℕ) : Prop where
  listed : c.dirty = true → i ∈ w.dirty
  heap : ∀ s, c.scheduled = some s → (s, i) ∈ w.timers
  opened : c.dirty = false → P.isClosed c.conn = false
  armed : c.dirty = false → ∀ d, P.timeoutInstant c.conn = some d → ∃ s, c.scheduled = some s ∧ s ≤ d

namespace Worker

variable {w w' : Worker P} {i : ℕ} {c c' : Client P}

structure Tended (w : Worker P) : Prop where
  sorted : w.timers.Pairwise Heap.Before
  clients : ∀ {i c}, w.client i = some c → c.Tended w i

/-- The clients in the slots other than `i` are tended. -/
structure TendedBut (w : Worker P) (i : ℕ) : Prop where
  sorted : w.timers.Pairwise Heap.Before
  others : ∀ {k c}, k ≠ i → w.client k = some c → c.Tended w k

theorem TendedBut.tended (h : w.TendedBut i) (hi : ∀ c, w.client i = some c → c.Tended w i) :
    w.Tended where
  sorted := h.sorted
  clients := fun {k c} hc => by
    by_cases hk : k = i
    · subst hk
      exact hi c hc
    · exact h.others hk hc

theorem TendedBut.of_others (h : w.TendedBut i) (hk : ∀ k, k ≠ i → w'.client k = w.client k)
    (hsorted : w'.timers.Pairwise Heap.Before) (htimers : ∀ t ∈ w.timers, t.2 ≠ i → t ∈ w'.timers)
    (hdirty : ∀ k ∈ w.dirty, k ≠ i → k ∈ w'.dirty) : w'.TendedBut i := by
  refine ⟨hsorted, fun {k c} hki hc => ?_⟩
  rw [hk k hki] at hc
  have hc' := h.others hki hc
  exact ⟨fun hd => hdirty k (hc'.listed hd) hki, fun s hs => htimers _ (hc'.heap s hs) hki,
    hc'.opened, hc'.armed⟩

theorem Tended.but (h : w.Tended) (i : ℕ) : w.TendedBut i := ⟨h.sorted, fun _ hc => h.clients hc⟩

theorem Tended.of_eq (h : w.Tended) (hc : w'.clients = w.clients) (ht : w'.timers = w.timers)
    (hd : w'.dirty = w.dirty) : w'.Tended := by
  refine ⟨ht ▸ h.sorted, fun {k c} hk => ?_⟩
  have hc' := h.clients (show w.client k = some c by unfold client at hk ⊢; rwa [← hc])
  exact ⟨fun h => hd ▸ hc'.listed h, fun s hs => ht ▸ hc'.heap s hs, hc'.opened, hc'.armed⟩

/-! ### Reading -/

/-- A client that is touched is on the list of dirty ones. -/
theorem TendedBut.putDirty (h : w.TendedBut i) (hi : i < w.clients.length)
    (hlisted : c.dirty = true → i ∈ w.dirty) (hheap : ∀ s, c.scheduled = some s → (s, i) ∈ w.timers) :
    (w.putDirty i c).Tended := by
  have hget : ∀ k, (w.putDirty i c).client k =
      if k = i then some { c with dirty := true } else w.client k := fun k => client_set rfl hi k
  have hsub : ∀ k ∈ w.dirty, k ∈ (w.putDirty i c).dirty := by
    intro k hk
    unfold Worker.putDirty
    split
    · exact hk
    · exact List.mem_cons_of_mem _ hk
  have hbut : (w.putDirty i c).TendedBut i :=
    h.of_others (fun k hk => (hget k).trans (if_neg hk)) h.sorted (fun t ht _ => ht)
      (fun k hk _ => hsub k hk)
  refine hbut.tended (fun c' hc' => ?_)
  rw [hget, if_pos rfl] at hc'
  obtain rfl := Option.some.inj hc'
  refine ⟨fun _ => ?_, hheap, fun hd => (by cases hd), fun hd => (by cases hd)⟩
  cases hd : c.dirty with
  | true => exact hsub i (hlisted hd)
  | false =>
    unfold Worker.putDirty
    simp [hd]

theorem TendedBut.deliver (h : w.TendedBut i) (hlisted : ∀ c, w.client i = some c → c.dirty = true →
    i ∈ w.dirty) (hheap : ∀ c, w.client i = some c → ∀ s, c.scheduled = some s → (s, i) ∈ w.timers)
    (s : ℕ) (sender : SocketAddr) (data : Body) : (w.deliver i s sender data).Tended := by
  unfold Worker.deliver
  cases hc : w.client i with
  | none => exact h.tended (fun c hc' => by rw [hc] at hc'; cases hc')
  | some c =>
    have hkey := Client.key_process
      { c with conn := P.recv sender (w.localAddr s) data c.conn }
    have hd := congrArg (fun k => k.2.2.2.2) hkey
    have hs := congrArg (fun k => k.2.2.2.1) hkey
    exact h.putDirty (lt_of_client hc) (fun hd' => hlisted c hc (hd.symm.trans hd'))
      (fun t ht => hheap c hc t (hs.symm.trans ht))

theorem Tended.deliver (h : w.Tended) (i s : ℕ) (sender : SocketAddr) (data : Body) :
    (w.deliver i s sender data).Tended :=
  (h.but i).deliver (fun _ hc => (h.clients hc).listed) (fun _ hc => (h.clients hc).heap) s sender data

theorem client_allocSlot (w : Worker P) (k : ℕ) : w.allocSlot.2.client k = w.client k := by
  unfold allocSlot
  split
  · rfl
  · exact client_append rfl k

/-- The slot of a connection that is accepted has a client with no timer. -/
theorem client_enrol {s : ℕ} {scid odcid : ConnectionId} {q : P.Q}
    (hc : (w.enrol s scid odcid q).2.client (w.enrol s scid odcid q).1 = some c) :
    c = { conn := q, sock := s, ids := [scid, odcid] } := by
  have hlt : w.allocSlot.1 < w.allocSlot.2.clients.length := by simpa [enrol] using lt_of_client hc
  have hset : (w.enrol s scid odcid q).2.client w.allocSlot.1 =
      some { conn := q, sock := s, ids := [scid, odcid] } :=
    (client_set rfl hlt _).trans (if_pos rfl)
  exact Option.some.inj (hc.symm.trans hset)

theorem Tended.enrol (h : w.Tended) (s : ℕ) (scid odcid : ConnectionId) (q : P.Q) :
    (w.enrol s scid odcid q).2.TendedBut (w.enrol s scid odcid q).1 := by
  have htimers : (w.enrol s scid odcid q).2.timers = w.timers := by
    unfold Worker.enrol allocSlot
    split <;> rfl
  have hdirty : (w.enrol s scid odcid q).2.dirty = w.dirty := by
    unfold Worker.enrol allocSlot
    split <;> rfl
  refine (h.but _).of_others (fun k hk => ?_) (htimers ▸ h.sorted) (fun t ht _ => htimers ▸ ht)
    (fun k hk _ => hdirty ▸ hk)
  rw [← client_allocSlot w k]
  exact congrArg Option.join (List.getElem?_set_ne (Ne.symm hk))

theorem Tended.onDatagram (h : w.Tended) (s : ℕ) (sender : SocketAddr) (data : Body) :
    (w.onDatagram s sender data).Tended := by
  unfold Worker.onDatagram
  split
  · exact h
  · split
    · exact h.deliver _ _ _ _
    · split
      · exact h
      · split
        · exact h.of_eq rfl rfl rfl
        · dsimp only
          split
          · exact h.of_eq rfl rfl rfl
          · have h₀ : ({ w with os := (P.accept (P.fill w.os).1 (w.localAddr s) sender
                (P.fill w.os).2).2 } : Worker P).Tended := h.of_eq rfl rfl rfl
            refine (h₀.enrol s _ _ _).deliver (fun c hc hd => ?_) (fun c hc t ht => ?_) s sender data
            · rw [client_enrol hc] at hd
              cases hd
            · rw [client_enrol hc] at ht
              cases ht

theorem Tended.readSocketWithin (h : w.Tended) (s n : ℕ) (answers : List Recv) :
    (readSocketWithin s n answers w).2.Tended := by
  induction n generalizing answers w with
  | zero => exact h
  | succ n ih =>
    cases answers with
    | nil => exact h
    | cons a rest =>
      cases a with
      | datagram sender data => exact ih (h.onDatagram s sender data) rest
      | wouldBlock => exact h
      | failed => exact ih h rest

/-! ### Firing timers -/

/-- An entry that is taken off the heap leaves the timers of the other slots, and that of its own slot
unless it is this one. -/
theorem Tended.pop {t : Timer} {rest : List Timer} (h : w.Tended) (ht : w.timers = t :: rest) :
    ({ w with timers := rest } : Worker P).TendedBut t.2 ∧
      ∀ c, w.client t.2 = some c → ∀ s, c.scheduled = some s → s ≠ t.1 → (s, t.2) ∈ rest := by
  have hmem : ∀ e ∈ w.timers, e ≠ t → e ∈ rest := by
    intro e he hne
    rw [ht] at he
    exact (List.mem_cons.mp he).resolve_left hne
  have hsorted := h.sorted
  rw [ht] at hsorted
  refine ⟨(h.but t.2).of_others (fun _ _ => rfl) hsorted.of_cons ?_ (fun _ hk _ => hk), ?_⟩
  · intro e he hne
    exact hmem e he (fun hte => hne (by rw [hte]))
  · intro c hc s hs hne
    exact hmem _ ((h.clients hc).heap s hs) (fun hte => hne (by rw [← hte]))

theorem Tended.fireNext (h : w.Tended) (now : Instant) : (w.fireNext now).Tended := by
  unfold Worker.fireNext
  cases ht : w.timers with
  | nil => exact h
  | cons e rest =>
    obtain ⟨t, i⟩ := e
    obtain ⟨hbut, hown⟩ := h.pop ht
    simp only
    by_cases hn : now < t
    · rw [if_pos hn]
      exact h
    · rw [if_neg hn]
      cases hc : ({ w with timers := rest } : Worker P).client i with
      | none => exact hbut.tended (fun c hc' => by rw [hc] at hc'; cases hc')
      | some c =>
        have hold := h.clients (show w.client i = some c from hc)
        simp only
        by_cases hs : c.scheduled = some t
        · rw [if_neg (not_not.mpr hs)]
          exact hbut.putDirty (lt_of_client hc) hold.listed (fun _ hs' => by cases hs')
        · rw [if_pos hs]
          refine hbut.tended (fun c' hc' => ?_)
          obtain rfl := Option.some.inj (hc.symm.trans hc')
          exact ⟨hold.listed, fun s hs' => hown c hc s hs' (fun hst => hs (hs'.trans (by rw [hst]))),
            hold.opened, hold.armed⟩

/-- A turn on an entry that is due takes it off the heap, and nothing else. -/
theorem timers_fireNext {t : Timer} {rest : List Timer} {now : Instant} (ht : w.timers = t :: rest)
    (hdue : t.1 ≤ now) : (w.fireNext now).timers = rest := by
  unfold fireNext
  rw [ht]
  simp only [if_neg (not_lt.mpr hdue)]
  split
  · rfl
  · split <;> rfl

/-- The turns of `fireTimers` are enough: no entry that is left is due. -/
theorem fireTimers_over (w : Worker P) (now : Instant) {t : Timer}
    (ht : (w.fireTimers now).timers.head? = some t) : now < t.1 := by
  have key : ∀ n (w : Worker P), w.timers.length = n →
      ∀ t, ((fun w => w.fireNext now)^[n] w).timers.head? = some t → now < t.1 := by
    intro n
    induction n with
    | zero =>
      intro w hw t ht
      rw [Function.iterate_zero_apply, List.length_eq_zero_iff.mp hw] at ht
      cases ht
    | succ n ih =>
      intro w hw t ht
      cases htimers : w.timers with
      | nil => simp [htimers] at hw
      | cons e rest =>
        by_cases hdue : e.1 ≤ now
        · rw [Function.iterate_succ_apply] at ht
          have hlen : (w.fireNext now).timers.length = n := by
            rw [timers_fireNext htimers hdue]
            simpa [htimers] using hw
          exact ih _ hlen t ht
        · have hstop : w.fireNext now = w := by
            unfold Worker.fireNext
            rw [htimers]
            exact if_pos (not_le.mp hdue)
          rw [Function.iterate_fixed hstop, htimers] at ht
          obtain rfl := Option.some.inj ht
          exact not_le.mp hdue
  exact key _ w rfl t ht

/-! ### Flushing -/

theorem sorted_pushTimer (h : w.timers.Pairwise Heap.Before) (t : Timer) :
    (w.pushTimer t).timers.Pairwise Heap.Before :=
  Heap.pairwise_orderedInsert (r := fun a b => a.1 < b.1 ∨ (a.1 = b.1 ∧ a.2 ≤ b.2)) rfl h t

theorem mem_pushTimer {e t : Timer} : e ∈ (w.pushTimer t).timers ↔ e = t ∨ e ∈ w.timers :=
  List.mem_orderedInsert _

/-- What `flush` leaves in the slot: the timer there is early enough, or one is added. -/
theorem schedule_cases (w : Worker P) (i : ℕ) (c : Client P) :
    ∃ c' : Client P, (w.schedule i c).clients = w.clients.set i (some c') ∧
      (w.schedule i c).dirty = w.dirty ∧ c'.conn = c.conn ∧ c'.dirty = c.dirty ∧
      (∀ d, P.timeoutInstant c.conn = some d → ∃ s, c'.scheduled = some s ∧ s ≤ d) ∧
      ((w.schedule i c).timers = w.timers ∧ c'.scheduled = c.scheduled ∨
        ∃ d, (w.schedule i c).timers = (w.pushTimer (d, i)).timers ∧ c'.scheduled = some d) := by
  unfold schedule
  cases hto : P.timeoutInstant c.conn with
  | none => exact ⟨_, rfl, rfl, rfl, rfl, fun d hd => (by cases hd), .inl ⟨rfl, rfl⟩⟩
  | some d =>
    simp only
    split
    · refine ⟨_, rfl, rfl, rfl, rfl, fun d' hd' => ?_, .inr ⟨d, rfl, rfl⟩⟩
      obtain rfl := Option.some.inj hd'
      exact ⟨d, rfl, le_rfl⟩
    · rename_i hlate
      refine ⟨_, rfl, rfl, rfl, rfl, fun d' hd' => ?_, .inl ⟨rfl, rfl⟩⟩
      obtain rfl := Option.some.inj hd'
      cases hs : c.scheduled with
      | none => simp [hs] at hlate
      | some s => exact ⟨s, rfl, by simpa [hs] using hlate⟩

/-- A connection that is open is given a timer that is early enough. -/
theorem TendedBut.schedule (h : w.TendedBut i) (hi : i < w.clients.length)
    (hheap : ∀ s, c.scheduled = some s → (s, i) ∈ w.timers) (hd : c.dirty = false)
    (hopen : P.isClosed c.conn = false) : (w.schedule i c).Tended := by
  obtain ⟨c', hclients, hdirty, hconn, hd', harmed, hcases⟩ := schedule_cases w i c
  have hget := fun k => client_set hclients hi k
  have htimers : (w.schedule i c).timers.Pairwise Heap.Before ∧
      (∀ t ∈ w.timers, t ∈ (w.schedule i c).timers) ∧
      ∀ s, c'.scheduled = some s → (s, i) ∈ (w.schedule i c).timers := by
    rcases hcases with ⟨ht, hs⟩ | ⟨d, ht, hs⟩
    · rw [ht, hs]
      exact ⟨h.sorted, fun _ h => h, hheap⟩
    · rw [ht, hs]
      refine ⟨sorted_pushTimer h.sorted _, fun t h => mem_pushTimer.mpr (.inr h), fun s hs' => ?_⟩
      obtain rfl := Option.some.inj hs'
      exact mem_pushTimer.mpr (.inl rfl)
  obtain ⟨hsorted, hsub, hown⟩ := htimers
  have hbut : (w.schedule i c).TendedBut i :=
    h.of_others (fun k hk => (hget k).trans (if_neg hk)) hsorted (fun t ht _ => hsub t ht)
      (fun k hk _ => hdirty ▸ hk)
  refine hbut.tended (fun c₁ hc₁ => ?_)
  rw [hget, if_pos rfl] at hc₁
  obtain rfl := Option.some.inj hc₁
  refine ⟨fun h => ?_, hown, fun _ => hconn ▸ hopen, fun _ => hconn ▸ harmed⟩
  rw [hd', hd] at h
  cases h

theorem TendedBut.remove (h : w.TendedBut i) : (w.remove i).Tended := by
  unfold Worker.remove
  cases hc : w.client i with
  | none => exact h.tended (fun c hc' => by rw [hc] at hc'; cases hc')
  | some c =>
    have hget : ∀ k, ({ w with
        clients := w.clients.set i none
        ids := dropIds i w.ids c.ids
        free := i :: w.free } : Worker P).client k = if k = i then none else w.client k :=
      fun k => client_set rfl (lt_of_client hc) k
    have hbut := h.of_others (fun k hk => (hget k).trans (if_neg hk)) h.sorted (fun t ht _ => ht)
      (fun k hk _ => hk)
    refine hbut.tended (fun c' hc' => ?_)
    rw [hget, if_pos rfl] at hc'
    cases hc'

/-- The list has lost the slot that is flushed; its client is removed, or scheduled. -/
theorem TendedBut.flush (h : w.TendedBut i)
    (hheap : ∀ c, w.client i = some c → ∀ s, c.scheduled = some s → (s, i) ∈ w.timers) :
    (w.flush i).Tended := by
  unfold Worker.flush
  cases hc : w.client i with
  | none => exact h.tended (fun c hc' => by rw [hc] at hc'; cases hc')
  | some c =>
    have hi := lt_of_client hc
    have hkey := Client.key_sendLoop { c with dirty := false } (P.sendAnswers c.sock w.os).1
    have hd := congrArg (fun k => k.2.2.2.2) hkey
    have hs := congrArg (fun k => k.2.2.2.1) hkey
    dsimp only
    generalize Client.sendLoop { c with dirty := false } (P.sendAnswers c.sock w.os).1 = c' at hd hs ⊢
    have hget : ∀ k, ({ w with
        clients := w.clients.set i (some c')
        os := (P.sendAnswers c.sock w.os).2 } : Worker P).client k =
        if k = i then some c' else w.client k := fun k => client_set rfl hi k
    have hsent : ({ w with
        clients := w.clients.set i (some c')
        os := (P.sendAnswers c.sock w.os).2 } : Worker P).TendedBut i :=
      h.of_others (fun k hk => (hget k).trans (if_neg hk)) h.sorted (fun t ht _ => ht)
        (fun k hk _ => hk)
    by_cases hclosed : P.isClosed c'.conn = true
    · rw [if_pos hclosed]
      exact hsent.remove
    · rw [if_neg hclosed]
      exact hsent.schedule (by simpa using hi) (fun s hs' => hheap c hc s (hs.symm.trans hs')) hd
        (by simpa using hclosed)

theorem Tended.flushNext (h : w.Tended) : w.flushNext.Tended := by
  unfold Worker.flushNext
  cases hd : w.dirty with
  | nil => exact h
  | cons i rest =>
    have hbut : ({ w with dirty := rest } : Worker P).TendedBut i := by
      refine (h.but i).of_others (fun _ _ => rfl) h.sorted (fun t ht _ => ht) (fun k hk hki => ?_)
      rw [hd] at hk
      exact (List.mem_cons.mp hk).resolve_left hki
    exact hbut.flush (fun c hc => (h.clients (show w.client i = some c from hc)).heap)

theorem dirty_flush (w : Worker P) (i : ℕ) : (w.flush i).dirty = w.dirty := by
  unfold flush
  split
  · rfl
  · dsimp only
    split
    · unfold remove
      split <;> rfl
    · obtain ⟨_, _, hd, _⟩ := schedule_cases ({ w with
        clients := _
        os := _ } : Worker P) i _
      exact hd

theorem dirty_flushDirty (w : Worker P) : w.flushDirty.dirty = [] := by
  have key : ∀ n (w : Worker P), (flushNext^[n] w).dirty = w.dirty.drop n := by
    intro n
    induction n with
    | zero => exact fun _ => rfl
    | succ n ih =>
      intro w
      rw [Function.iterate_succ_apply, ih]
      unfold flushNext
      cases hd : w.dirty with
      | nil => simp [hd]
      | cons i rest => rw [dirty_flush, List.drop_succ_cons]
  unfold flushDirty
  rw [key, List.drop_length]

/-- Both loops keep what a turn keeps. -/
theorem Tended.iterate {f : Worker P → Worker P} (hf : ∀ w : Worker P, w.Tended → (f w).Tended)
    (h : w.Tended) (n : ℕ) : (f^[n] w).Tended := by
  induction n generalizing w with
  | zero => exact h
  | succ n ih => exact ih (hf w h)

end Worker

namespace Loop

variable {x : Loop P}

theorem tended_readSockets (answers : ℕ → List Recv) (l : List ℕ) (h : x.worker.Tended) :
    (readSockets answers l x).worker.Tended := by
  induction l generalizing x with
  | nil => exact h
  | cons s rest ih => exact ih (h.readSocketWithin s readBudget (answers s))

theorem Polls.tended (h : x.Polls) : x.worker.Tended := by
  induction h with
  | new sockets os => exact ⟨.nil, fun hc => by simp [Worker.new, Worker.client] at hc⟩
  | @pass y p _ ih =>
    have h₀ : ({ y.worker with os := p.os } : Worker P).Tended := ih.of_eq rfl rfl rfl
    have hread := tended_readSockets (x := ⟨_, []⟩) p.answers (addTokens y.unread p.tokens) h₀
    exact (hread.iterate (fun w hw => hw.fireNext p.now) _).iterate (fun w hw => hw.flushNext) _

theorem Polls.dirty (h : x.Polls) : x.worker.dirty = [] := by
  cases h with
  | new sockets os => rfl
  | pass p _ => exact Worker.dirty_flushDirty _

/-- The timers of the server are never lost: whenever a worker is about to poll, no connection is
closed, none is dirty, and each that has a timeout has an entry on the heap that is no later; so the
poll ends by then, whatever else is on the heap. -/
theorem timers_never_lost (h : x.Polls) :
    x.worker.dirty = [] ∧ ∀ i c, x.worker.client i = some c → P.isClosed c.conn = false ∧
      ∀ d, P.timeoutInstant c.conn = some d →
        (∃ s, c.scheduled = some s ∧ s ≤ d ∧ (s, i) ∈ x.worker.timers) ∧
        ∀ now, ∃ t, x.pollTimeout now = some t ∧ now + t ≤ max now d := by
  refine ⟨h.dirty, fun i c hc => ?_⟩
  have hc' := h.tended.clients hc
  have hclean : c.dirty = false := by
    cases hd : c.dirty with
    | false => rfl
    | true =>
      have := hc'.listed hd
      rw [h.dirty] at this
      cases this
  refine ⟨hc'.opened hclean, fun d hd => ?_⟩
  obtain ⟨s, hs, hle⟩ := hc'.armed hclean d hd
  have hmem := hc'.heap s hs
  refine ⟨⟨s, hs, hle, hmem⟩, fun now => ?_⟩
  obtain ⟨t, ht, hts⟩ := Heap.head_le (h.tended.sorted.imp Heap.Before.fst_le) hmem
  unfold pollTimeout
  by_cases hu : x.unread = []
  · rw [if_neg (not_not.mpr hu), ht]
    refine ⟨t - now, rfl, ?_⟩
    rw [add_tsub_eq_max]
    exact max_le_max le_rfl (hts.trans hle)
  · rw [if_pos hu]
    exact ⟨0, rfl, le_max_left _ _⟩

/-- Every call succeeds; the last byte a connection has received is the instant it wants to be woken
at, and 0 closes it. -/
def alarms : ServerPlatform :=
  { scripted (fun data => data.map (fun b => (b.toNat, .goAway))) with
    ready := fun _ _ => 0
    isClosed := fun q => q.getLast?.any (fun e => e.1 = 0)
    timeoutInstant := fun q => q.getLast?.map Prod.fst }

/-- A pass that reads one datagram. -/
def reading (data : Body) (now : Instant) : Pass alarms where
  os := (now : ℕ)
  tokens := [0]
  answers := fun _ => [.datagram ⟨true, ""⟩ data]
  now := now

/-- A connection with a timer at 5 is closed, and its slot is taken by one with a timer at 20: the
entry at 5 is still there. -/
theorem timers_never_lost_stale : ∃ (x : Loop alarms) (c : Client alarms), x.Polls ∧
    x.worker.client 0 = some c ∧ c.ids = [[203], [8]] ∧ x.worker.timers = [(5, 0), (20, 0)] ∧
    c.scheduled = some 20 ∧ ∃ t, x.pollTimeout 3 = some t ∧ 3 + t ≤ 20 := by
  have hx : Polls ((((⟨Worker.new [] (0 : ℕ), []⟩ : Loop alarms).pass (reading [1, 7, 5] 1)).pass
      (reading [0, 7, 0] 2)).pass (reading [1, 8, 20] 3)) := .pass _ (.pass _ (.pass _ (.new [] _)))
  obtain ⟨-, h⟩ := timers_never_lost hx
  obtain ⟨-, harmed⟩ := h 0 _ rfl
  obtain ⟨-, hpoll⟩ := harmed 20 rfl
  exact ⟨_, _, hx, rfl, rfl, rfl, rfl, hpoll 3⟩

end Loop
end Http3Bench.Server
