import Http3Bench.Posts
import Http3Bench.Places
import Http3Bench.RateConns

/-!
# The accounts of BenchMultiplex

As long as a worker has sent no outcome of a BenchMultiplex it has no such requests until the phase
begins, and from then on none is lost: each connection counts the ones it has in flight, each one sent
is outstanding or has ended, and the ones that count as answered are those whose stream finished.
-/

namespace Http3Bench

variable {P : Platform}

/-! ### What a response says -/

/-- A response that is judged as its stream ended: what counts as an answer comes from a stream that
finished, and a success has the length of the payload. -/
def Honest (payload : Body) (cause : Cause) : Except String ℕ → Prop
  | .ok n => cause = .finished ∧ n = payload.length
  | .error e => (startsWith "status " e ∨ startsWith "response body" e) ↔ cause = .finished

theorem startsWith_append (p s : String) : startsWith p (p ++ s) := by
  rw [startsWith, String.toList_append, List.isPrefixOf_iff_prefix]
  exact List.prefix_append ..

theorem not_startsWith_append {p q : String} (hlen : p.toList.length ≤ q.toList.length)
    (h : ¬ p.toList <+: q.toList) (s : String) : ¬ startsWith p (q ++ s) := by
  rw [startsWith, String.toList_append, List.isPrefixOf_iff_prefix]
  exact fun hp => h (List.prefix_of_prefix_length_le hp (List.prefix_append ..) hlen)

theorem Req.honest_result (r : Req) : Honest r.expect .finished r.result := by
  unfold Req.result
  split
  · exact iff_of_true (.inl (startsWith_append _ _)) rfl
  · split
    · exact iff_of_true (.inr (by simp [startsWith, String.toList_append])) rfl
    · split
      · exact iff_of_true (.inr (by decide)) rfl
      · rename_i hgot _
        exact ⟨rfl, not_not.mp hgot⟩

/-- The requests of BenchMultiplex on a connection expect the payload back. -/
def Conn.Posts (payload : Body) (c : Conn P) : Prop :=
  ∀ sid r, c.streams.lookup sid = some r → r.kind = .rate → r.expect = payload

theorem Conn.Reply.honest {c : Conn P} {payload : Body} {res : Except String ℕ} {cause : Cause}
    (hc : c.Posts payload) (h : c.Reply (.response .rate res cause)) : Honest payload cause res := by
  generalize hev : ConnEvent.response .rate res cause = ev at h
  cases h with
  | @finished sid r₀ r hl hs =>
    obtain ⟨hk, rfl, rfl⟩ := ConnEvent.response.inj hev
    have hexpect : r.expect = payload := hs.2.trans (hc sid r₀ hl (hs.1.symm.trans hk.symm))
    rw [← hexpect]
    exact r.honest_result
  | reset kind code =>
    obtain ⟨-, rfl, rfl⟩ := ConnEvent.response.inj hev
    refine iff_of_false (not_or.mpr ⟨?_, ?_⟩) (by decide)
    · exact not_startsWith_append (by decide) (by decide) _
    · exact not_startsWith_append (by decide) (by decide) _
  | failed kind reason =>
    obtain ⟨-, rfl, rfl⟩ := ConnEvent.response.inj hev
    refine iff_of_false (not_or.mpr ⟨?_, ?_⟩) (by decide)
    · exact not_startsWith_append (by decide) (by decide) _
    · exact not_startsWith_append (by decide) (by decide) _
  | established => cases hev
  | closed reason => cases hev

section

variable {x x' : Mach P} {ins outs : Multiset Op} {payload : Body}

theorem Conn.Posts.within {c c' : Conn P} (hc : c.Posts payload) (h : Conn.Within c c') :
    c'.Posts payload := by
  intro sid r hr hk
  obtain ⟨r₀, hr₀, hs⟩ := h sid r hr
  exact hs.2.trans (hc sid r₀ hr₀ (hs.1.symm.trans hk))

theorem Conn.Posts.send {c : Conn P} (hc : c.Posts payload) (headers : List Header) (kind : ReqKind)
    (body : Body) (hb : kind = .rate → body = payload) :
    (c.trySend headers kind body).conn.Posts payload := by
  have hs := trySend_cases headers kind body c
  generalize c.trySend headers kind body = sent at hs ⊢
  cases hs with
  | @sent h h' h'' q' q'' s off hh ha =>
    intro sid r hr hk
    simp only [Conn.record, Conn.streams_park] at hr
    by_cases hsid : sid = s
    · subst hsid
      rw [AList.lookup_insert] at hr
      obtain rfl := Option.some.inj hr
      simp only at hk
      simp [hk, hb hk]
    · rw [AList.lookup_insert_ne hsid] at hr
      exact hc sid r hr hk
  | _ => exact hc

/-- A request of BenchMultiplex that is sent carries the payload. -/
theorem Move.posts (m : Move x ins outs x') (h : x.w.Every (Conn.Posts payload))
    (hb : ∀ i body, x.todo.head? = some (.request i .rate body) → body = payload) :
    x'.w.Every (Conn.Posts payload) := by
  intro k c' hc'
  rcases m.acts k c' hc' with ⟨c, hc, ha⟩ | ⟨hs, -⟩
  · have hposts := h k c hc
    cases ha with
    | send headers kind body ht hl =>
      have hsent := hposts.send headers kind body (fun hk => hb k body (hk ▸ ht))
      exact fun sid r hr => hsent sid r (hl.streams ▸ hr)
    | read _ hl =>
      have hread := hposts.within (read_processConn x.w.cfg.check c).within.1
      exact fun sid r hr => hread sid r (hl.streams ▸ hr)
    | touch hs => exact fun sid r hr => hposts sid r (hs ▸ hr)
    | clear hs => exact fun sid r hr => by rw [hs] at hr; cases hr
  · exact fun sid r hr => by rw [hs] at hr; cases hr

end

/-! ### The invariant -/

/-- The sums of a BenchMultiplex. -/
structure RateBook.Sums (b : RateBook) (x : Mach P) : Prop where
  flight : ∀ k, x.w.flight k + (raised x.todo).count k = (posts x.ops).count k
  sent : b.counts.sendTimes + soFar x.todo + (raised x.todo).card =
    b.finished + b.ended + (posts x.ops).card
  bound : ∀ k, x.w.flight k ≤ b.job.batch * maxBatchesInFlight
  answered : b.counts.answered = b.finished
  recv : b.counts.recvTimes ≤ b.counts.answered
  sendBytes : b.counts.sendBytes = b.counts.sendTimes * b.job.payload.length
  recvBytes : b.counts.recvBytes = b.counts.recvTimes * b.job.payload.length

/-- The requests under way expect the payload, and their responses are judged as they should be. -/
structure Mach.Traffic (payload : Body) (x : Mach P) : Prop where
  requests : x.w.Every (Conn.Posts payload)
  events : ∀ i res cause, .event i (.response .rate res cause) ∈ x.todo → Honest payload cause res

structure Mach.Unposted (x : Mach P) : Prop where
  posts : posts x.ops = 0
  flight : ∀ k, x.w.flight k = 0

/-- No BenchMultiplex has been reported. -/
def Unrated (sent : List Outcome) : Prop := ∀ counts, .rate counts ∉ sent

def Mach.Accounts (x : Mach P) : Prop :=
  Unrated x.w.sent → match x.w.phase.book with
    | none => x.Unposted
    | some b => b.Sums x ∧ x.Traffic b.job.payload

section

variable {x x' : Mach P} {ins outs : Multiset Op} {b : RateBook}

theorem Phase.eq_rate {p : Phase} (h : p.book = some b) : ∃ r, p = .rate r ∧ r.book = b := by
  cases p with
  | rate r => exact ⟨r, rfl, Option.some.inj h⟩
  | _ => cases h

theorem Mach.Unposted.traffic (h : x.Unposted) (htodo : x.todo = []) (payload : Body) :
    x.Traffic payload := by
  refine ⟨fun k c hc sid r hr hk => ?_, by simp [htodo]⟩
  have hmem : Op.post k ∈ x.ops := by
    refine mem_ops_of_conn hc ?_
    rw [Conn.ops_eq, Multiset.mem_add, Multiset.mem_add]
    refine .inr (.inl (List.mem_map.mpr ⟨⟨sid, r⟩, AList.mem_lookup_iff.mp hr, ?_⟩))
    simp [hk, ReqKind.op]
  have hpos : 0 < (Http3Bench.posts x.ops).count k := by
    rw [count_posts]
    exact Multiset.count_pos.mpr hmem
  rw [h.posts] at hpos
  exact absurd hpos (by simp)

/-- Until the phase begins there is nothing to account for; then the books are opened. -/
theorem PostStep.unposted (h : PostStep x x') (hb : x.w.phase.book = none) (hx : x.Unposted) :
    (x'.w.phase.book = none ∧ x'.Unposted) ∨
      ∃ b, x'.w.phase.book = some b ∧ b.Sums x' ∧ x'.Traffic b.job.payload := by
  have hflight : ∀ {w' : Worker P}, (∀ k, w'.flight k ≤ x.w.flight k) → ∀ k, w'.flight k = 0 :=
    fun hle k => Nat.le_zero.mp ((hle k).trans (hx.flight k).le)
  have hempty : ∀ {i : ℕ} {s : Multiset ℕ}, posts x.ops = i ::ₘ s → False := by
    intro i s hs
    rw [hx.posts] at hs
    exact Multiset.cons_ne_zero hs.symm
  cases h with
  | quiet hf hp _ _ hbook =>
    exact .inl ⟨hbook.trans hb, hp.trans hx.posts, hflight (fun k => (hf k).le)⟩
  | dialed j _ hf hp _ hbook =>
    exact .inl ⟨hbook.trans hb, Multiset.le_zero.mp (hx.posts ▸ hp), hflight hf⟩
  | answered _ _ hp => exact (hempty hp).elim
  | post i hphase => cases (hphase ▸ hb : (Phase.rate _).book = none)
  | unpost i _ hp => exact (hempty hp).elim
  | posted i hphase => cases (hphase ▸ hb : (Phase.rate _).book = none)
  | ticked n hf hp _ _ _ hphase =>
    refine .inl ⟨?_, hp.trans hx.posts, hflight (fun k => (hf k).le)⟩
    rw [hphase]
    cases hq : x.w.phase with
    | rate r => cases (hq ▸ hb : (Phase.rate _).book = none)
    | _ => rfl
  | start _ hf hp htodo hphase =>
    have hx' : x'.Unposted := ⟨hp.trans hx.posts, hflight hf⟩
    refine .inr ⟨_, by rw [hphase]; rfl, ⟨fun k => ?_, ?_, fun k => ?_, rfl, le_rfl, ?_, ?_⟩,
      hx'.traffic htodo _⟩
    · rw [hx'.flight, htodo, hx'.posts]
      rfl
    · rw [htodo, hx'.posts]
      rfl
    · rw [hx'.flight]
      exact Nat.zero_le _
    · exact (Nat.zero_mul _).symm
    · exact (Nat.zero_mul _).symm
  | finish _ hf hp hphase _ =>
    exact .inl ⟨by rw [hphase]; rfl, hp.trans hx.posts, hflight (fun k => (hf k).le)⟩

/-- How a response changes the books. -/
theorem RatePhase.book_answer {r : RatePhase} {res : Except String ℕ} {cause : Cause}
    (h : Honest r.job.payload cause res) (ha : r.counts.answered = r.finished)
    (hr : r.counts.recvTimes ≤ r.counts.answered)
    (hb : r.counts.recvBytes = r.counts.recvTimes * r.job.payload.length) :
    (r.answer res cause).finished + (r.answer res cause).ended = r.finished + r.ended + 1 ∧
      (r.answer res cause).counts.answered = (r.answer res cause).finished ∧
      (r.answer res cause).counts.recvTimes ≤ (r.answer res cause).counts.answered ∧
      (r.answer res cause).counts.recvBytes =
        (r.answer res cause).counts.recvTimes * r.job.payload.length ∧
      (r.answer res cause).counts.sendTimes = r.counts.sendTimes ∧
      (r.answer res cause).counts.sendBytes = r.counts.sendBytes := by
  unfold RatePhase.answer
  cases res with
  | ok n =>
    obtain ⟨rfl, rfl⟩ := h
    simp only [if_true, Nat.add_mul]
    exact ⟨by omega, by omega, by omega, by omega, trivial, trivial⟩
  | error e =>
    by_cases hc : cause = .finished
    · simp only [if_pos hc, if_pos (h.mpr hc)]
      exact ⟨by omega, by omega, by omega, hb, trivial, trivial⟩
    · simp only [if_neg hc, if_neg (fun hs => hc (h.mp hs))]
      exact ⟨by omega, ha, hr, hb, trivial, trivial⟩

/-- From then on every request that is sent is accounted for, until the outcome is sent. -/
theorem PostStep.sums (h : PostStep x x') (hb : x.w.phase.book = some b) (hx : b.Sums x)
    (htraffic : x.Traffic b.job.payload) (hdial : ∀ j : DialJob, j.op ∉ x.ops) :
    (∃ b', x'.w.phase.book = some b' ∧ b'.job = b.job ∧ b'.Sums x') ∨
      ∃ counts, x'.w.sent = x.w.sent ++ [.rate counts] := by
  obtain ⟨r, hr, rfl⟩ := Phase.eq_rate hb
  cases h with
  | quiet hf hp hraised hsofar hbook =>
    refine .inl ⟨r.book, hbook.trans hb, rfl, ⟨fun k => ?_, ?_, fun k => ?_, hx.answered, hx.recv,
      hx.sendBytes, hx.recvBytes⟩⟩
    · rw [hf, hraised, hp]
      exact hx.flight k
    · rw [hraised, hsofar, hp]
      exact hx.sent
    · rw [hf]
      exact hx.bound k
  | dialed j hj => exact absurd hj (hdial j)
  | @answered i res cause st htodo hf hp hz hz' hsofar hphase =>
    have hsent := hx.sent
    have hhonest := htraffic.events i res cause (by rw [htodo]; exact List.mem_cons_self)
    obtain ⟨hsum, ha, hrecv, hbytes, htimes, hsb⟩ :=
      RatePhase.book_answer hhonest hx.answered hx.recv hx.recvBytes
    rw [hp, Multiset.card_cons, hz] at hsent
    refine .inl ⟨(r.answer res cause).book, by rw [hphase, hr]; rfl, rfl, ⟨fun k => ?_, ?_,
      fun k => ?_, ha, hrecv, ?_, hbytes⟩⟩
    · have hk := hx.flight k
      rw [hp, hz, Multiset.count_cons] at hk
      rw [hf, hz']
      split
      · rw [if_pos ‹_›] at hk
        simp only [Multiset.count_zero] at hk ⊢
        omega
      · rw [if_neg ‹_›] at hk
        exact hk
    · rw [hz', hsofar]
      change (r.answer res cause).counts.sendTimes + _ + _ =
        (r.answer res cause).finished + (r.answer res cause).ended + _
      rw [hsum, htimes]
      change r.counts.sendTimes + _ + _ = r.finished + r.ended + _ at hsent
      omega
    · have hk := hx.bound k
      rw [hf]
      split
      · exact (Nat.sub_le _ _).trans hk
      · exact hk
    · change (r.answer res cause).counts.sendBytes = (r.answer res cause).counts.sendTimes * _
      rw [hsb, htimes]
      exact hx.sendBytes
  | post i _ hf hp hraised hsofar hbook =>
    have hsent := hx.sent
    refine .inl ⟨r.book, hbook.trans hb, rfl, ⟨fun k => ?_, ?_, fun k => ?_, hx.answered, hx.recv,
      hx.sendBytes, hx.recvBytes⟩⟩
    · rw [hf, hraised, hp, Multiset.count_cons, Multiset.count_cons, ← hx.flight k]
      omega
    · rw [hraised, hsofar, hp, Multiset.card_cons, Multiset.card_cons]
      omega
    · rw [hf]
      exact hx.bound k
  | unpost i hf hp hraised hsofar hbook =>
    have hsent := hx.sent
    rw [hp, hraised, Multiset.card_cons, Multiset.card_cons] at hsent
    refine .inl ⟨r.book, hbook.trans hb, rfl, ⟨fun k => ?_, ?_, fun k => ?_, hx.answered, hx.recv,
      hx.sendBytes, hx.recvBytes⟩⟩
    · have hk := hx.flight k
      rw [hp, hraised, Multiset.count_cons, Multiset.count_cons] at hk
      rw [hf]
      omega
    · rw [hsofar]
      omega
    · rw [hf]
      exact hx.bound k
  | @posted r' i hphase hroom hf hp hraised hsofar hphase' =>
    obtain rfl := Phase.rate.inj (hr.symm.trans hphase)
    have hsent := hx.sent
    rw [hraised, Multiset.card_cons] at hsent
    refine .inl ⟨r.book, by rw [hphase']; exact hb, rfl, ⟨fun k => ?_, ?_, fun k => ?_, hx.answered,
      hx.recv, hx.sendBytes, hx.recvBytes⟩⟩
    · have hk := hx.flight k
      rw [hraised, Multiset.count_cons] at hk
      rw [hf, hp]
      split
      · rw [if_pos ‹_›] at hk
        omega
      · rw [if_neg ‹_›] at hk
        exact hk
    · rw [hsofar, hp]
      omega
    · rw [hf]
      split
      · rename_i hk
        subst hk
        exact hroom
      · exact hx.bound k
  | ticked n hf hp hraised hn hsofar hphase =>
    have hsent := hx.sent
    rw [hn] at hsent
    refine .inl ⟨(r.addSent n).book, by rw [hphase, hr]; rfl, rfl, ⟨fun k => ?_, ?_, fun k => ?_,
      hx.answered, hx.recv, ?_, hx.recvBytes⟩⟩
    · rw [hf, hraised, hp]
      exact hx.flight k
    · rw [hraised, hsofar, hp]
      exact hsent
    · rw [hf]
      exact hx.bound k
    · change r.counts.sendBytes + _ = (r.counts.sendTimes + n) * _
      rw [show r.counts.sendBytes = _ from hx.sendBytes, Nat.add_mul]
      rfl
  | start hphase => cases hr.symm.trans hphase
  | finish hf _ _ _ hsent =>
    rw [hr] at hf
    cases hf
    exact .inr ⟨_, hsent⟩

/-- In BenchMultiplex, and when its redials are over, nothing is dialed. -/
theorem Phase.Books.no_dial {p : Phase} {prep : Option ℕ} {m : Multiset Op} (hb : p.Books prep m)
    (hp : (∃ r, p = .rate r) ∨ ∃ job f, p = .ratePrep job 0 f) (j : DialJob) : j.op ∉ m := by
  have hz : news m = 0 ∧ echoes m = 0 ∧ redials m = 0 := by
    rcases hp with ⟨r, rfl⟩ | ⟨job, f, rfl⟩
    · exact hb
    · exact ⟨hb.1, hb.2.1, Multiset.card_eq_zero.mp (Nat.le_zero.mp hb.2.2.2)⟩
  intro hj
  have hm := redialed_mem hj hz.1 hz.2.1
  rw [hz.2.2] at hm
  exact Multiset.notMem_zero _ hm

theorem Regular.no_dial (h : Regular x) (hb : x.w.phase.book = some b) (j : DialJob) : j.op ∉ x.ops := by
  obtain ⟨r, hr, -⟩ := Phase.eq_rate hb
  exact h.books.phase.no_dial (.inl ⟨r, hr⟩) j

theorem Ticking.payload (h : Ticking x.w x.todo) (hb : x.w.phase.book = some b) {i : ℕ} {body : Body}
    (ht : x.todo.head? = some (.request i .rate body)) : body = b.job.payload := by
  obtain ⟨r, hr, rfl⟩ := Phase.eq_rate hb
  obtain ⟨w, todo⟩ := x
  cases h with
  | rest h => cases h _ (List.mem_of_mem_head? ht)
  | sent => cases ht
  | batch => cases ht
  | request hp =>
    obtain rfl := Phase.rate.inj (hr.symm.trans hp)
    cases ht
    rfl
  | posted => cases ht

theorem Mach.Traffic.move (m : Move x ins outs x') (hx : Ticking x.w x.todo)
    (hb : x.w.phase.book = some b) (h : x.Traffic b.job.payload) : x'.Traffic b.job.payload := by
  refine ⟨m.posts h.requests (fun i body ht => hx.payload hb ht), fun i res cause hev => ?_⟩
  rcases m.event_mem hev with hev | ⟨c, st, -, hc, hev⟩
  · exact h.events i res cause hev
  · exact ((read_processConn x.w.cfg.check c).within.2 _ hev).honest (h.requests i c hc)

variable {next : P.H3 → ℕ}

theorem Mach.Accounts.move (hn : NumbersStreams next) (m : Move x ins outs x') (hx : Regular x)
    (ht : Ticking x.w x.todo) (hc : x.w.Every (Conn.Numbered next)) (h : x.Accounts) : x'.Accounts := by
  intro hun
  have hun₀ : Unrated x.w.sent := fun counts hm => hun counts (m.front.told.2.subset hm)
  have hstep := m.postStep ht hx.agenda.waits
    (fun k c hk headers body => (hc k c hk).overwrites hn headers body)
  have hacc := h hun₀
  cases hb : x.w.phase.book with
  | none =>
    rw [hb] at hacc
    rcases hstep.unposted hb hacc with ⟨hb', hx'⟩ | ⟨b', hb', hx'⟩
    · rw [hb']
      exact hx'
    · rw [hb']
      exact hx'
  | some b =>
    rw [hb] at hacc
    rcases hstep.sums hb hacc.1 hacc.2 (hx.no_dial hb) with ⟨b', hb', hjob, hx'⟩ | ⟨counts, hsent⟩
    · rw [hb']
      exact ⟨hx', hjob ▸ hacc.2.move m ht hb⟩
    · exact absurd (by simp [hsent]) (hun counts)

/-- The accounts are a matter of the slots, the phase and what was reported. -/
theorem Mach.Accounts.same {w w' : Worker P} (h : (⟨w, []⟩ : Mach P).Accounts)
    (hslots : w'.slots = w.slots) (hretries : w'.retries = w.retries) (hphase : w'.phase = w.phase)
    (hsent : w'.sent = w.sent) : (⟨w', []⟩ : Mach P).Accounts := by
  intro hun
  have hacc := h (hsent ▸ hun)
  have hops : (⟨w', []⟩ : Mach P).ops = (⟨w, []⟩ : Mach P).ops :=
    eq_of_balance (o := 0) (i := 0) (Mach.ops_same hslots hretries rfl) rfl
  have hflight := Worker.flight_of_slots_eq hslots
  simp only [hphase]
  cases hb : w.phase.book with
  | none =>
    simp only [hb] at hacc
    exact ⟨hops ▸ hacc.posts, fun k => (hflight k).trans (hacc.flight k)⟩
  | some b =>
    simp only [hb] at hacc
    obtain ⟨hx, ht⟩ := hacc
    refine ⟨⟨fun k => ?_, ?_, fun k => ?_, hx.answered, hx.recv, hx.sendBytes, hx.recvBytes⟩,
      fun k c hc => ht.requests k c ?_, ht.events⟩
    · rw [hflight, hops]
      exact hx.flight k
    · rw [hops]
      exact hx.sent
    · rw [hflight]
      exact hx.bound k
    · exact (Worker.conn_of_slots_eq hslots k).symm.trans hc

theorem kept_accounts (hn : NumbersStreams next) :
    Kept (fun x : Mach P => Regular x ∧ Ticking x.w x.todo ∧ x.w.Every (Conn.Numbered next))
      Mach.Accounts where
  new := fun cfg os now _ => ⟨rfl, fun k => by simp [Worker.flight, Worker.new, Worker.conn]⟩
  move := fun m hx _ h => h.move hn m hx.1 hx.2.1 hx.2.2
  interfere := fun _ _ h => h.same rfl rfl rfl rfl
  command := fun _ _ _ _ _ h => h.same rfl rfl rfl rfl

end

/-! ### Between two turns -/

/-- The requests of BenchMultiplex on the streams of a connection. -/
def Conn.posted (c : Conn P) : ℕ := c.streams.entries.countP (fun e => e.2.kind = .rate)

theorem posts_map_request {α : Type} (l : List α) (f : α → ReqKind) (k : ℕ) :
    posts (l.map (fun a => (f a).op k) : List Op) =
      Multiset.replicate (l.countP (fun a => f a = .rate)) k := by
  induction l with
  | nil => rfl
  | cons a l ih =>
    rw [List.map_cons, ← Multiset.cons_coe, ← Multiset.singleton_add, posts_add, ih, List.countP_cons]
    cases f a with
    | rate => exact (Multiset.replicate_succ ..).symm
    | dial => exact Multiset.zero_add _
    | echo start n => exact Multiset.zero_add _

theorem Conn.posts_ops {c : Conn P} (hq : ∀ r ∈ c.queued, r.1 ≠ .rate) (k : ℕ) :
    posts (c.ops k) = Multiset.replicate c.posted k := by
  have hdial : posts c.dialOps = 0 := by
    refine posts_eq_zero (fun i hi => ?_)
    obtain ⟨j, _, hj⟩ := List.mem_map.mp (Multiset.mem_coe.mp hi)
    exact (Op.At.not_dial (.inr rfl) j) hj
  have hqueue : c.queued.countP (fun r => r.1 = .rate) = 0 := by
    rw [List.countP_eq_zero]
    exact fun r hr => by simpa using hq r hr
  rw [Conn.ops_eq, posts_add, posts_add, hdial, streamOps, queueOps, posts_map_request,
    posts_map_request, hqueue, zero_add]
  exact add_zero _

/-- With nothing on the agenda the requests are on the streams. -/
theorem Worker.Sound.posts {w : Worker P} (h : w.Sound) :
    (∀ i c, w.conn i = some c → (posts (⟨w, []⟩ : Mach P).ops).count i = c.posted) ∧
      (posts (⟨w, []⟩ : Mach P).ops).card = w.total (fun _ c => c.posted) := by
  constructor
  · intro i c hc
    rw [count_posts, count_ops (.inr rfl), hc]
    simp only [Option.elim_some, agendaOps_nil, Multiset.count_zero, add_zero]
    rw [← count_ops_conn (.inr rfl), ← count_posts, Conn.posts_ops (h.conns hc).queued,
      Multiset.count_replicate_self]
  · have hretry : Http3Bench.posts w.retryOps = 0 := by
      refine posts_eq_zero (fun i hi => ?_)
      obtain ⟨r, _, hr⟩ := List.mem_map.mp (Multiset.mem_coe.mp hi)
      exact (Op.At.not_dial (.inr rfl) r.2) hr
    let F : Multiset Op →+ ℕ :=
      { toFun := fun m => (Http3Bench.posts m).card, map_zero' := rfl, map_add' := by simp }
    have htotal : (Http3Bench.posts (w.total (fun i c => c.ops i))).card =
        w.total (fun i c => (Http3Bench.posts (c.ops i)).card) := Worker.map_total F _ w
    rw [Mach.ops, posts_add, posts_add, hretry, agendaOps_nil, posts_zero, add_zero, add_zero, htotal]
    refine Finset.sum_congr rfl (fun i _ => ?_)
    cases hc : w.conn i with
    | none => rfl
    | some c =>
      simp only [Option.elim_some]
      rw [Conn.posts_ops (h.conns hc).queued, Multiset.card_replicate]

/-- A worker that is dialing nothing keeps its connections. -/
theorem SlotStep.stays {x : Mach P} {w' : Worker P} (h : SlotStep x.todo x.w w')
    (hdial : ∀ j : DialJob, j.op ∉ x.ops) {k : ℕ} (hk : (x.w.conn k).isSome) : (w'.conn k).isSome := by
  have put : ∀ {i : ℕ} {c c' : Conn P}, x.w.conn i = some c → w'.slots = x.w.slots.set i (some c') →
      (w'.conn k).isSome := by
    intro i c c' hc hs
    rw [Worker.conn_set hs (Worker.lt_of_conn hc)]
    split
    · rfl
    · exact hk
  have dialing : ∀ {j : DialJob}, x.todo.head? = some (.dialing j) → False := by
    intro j hj
    refine hdial j ?_
    rw [Mach.ops]
    exact Multiset.mem_add.mpr (.inr (mem_agendaOps (List.mem_of_mem_head? hj) (by simp [Task.ops])))
  cases h with
  | same hs => rwa [Worker.conn_of_slots_eq hs]
  | change hc _ hs => exact put hc hs
  | closed hc _ hs => exact put hc hs
  | up hc _ hs => exact put hc hs
  | broke hc _ _ hs => exact put hc hs
  | drop hc hd => exact absurd (mem_ops_of_dial hc hd) (hdial _)
  | vacate slot _ _ _ _ _ _ _ hj =>
    obtain ⟨j, hj, -⟩ := hj
    exact (dialing hj).elim
  | seat d j now hj => exact (dialing hj).elim
  | reset hs =>
    rw [Worker.conn_map hs]
    simpa using hk

theorem kept_conns : Kept (Regular (P := P)) (fun x =>
    ∀ r, x.w.phase = .rate r → ∀ i ∈ r.conns, (x.w.conn i).isSome) where
  new := fun _ _ _ _ h => (by cases h)
  move := by
    intro x ins outs x' m ha _ h r hr i hi
    rcases m.rateConns hr with ⟨r₀, hr₀, hconns⟩ | ⟨hp, hconns⟩
    · refine m.slotStep.stays (ha.no_dial (b := r₀.book) (by rw [hr₀]; rfl)) ?_
      exact h r₀ hr₀ i (hconns ▸ hi)
    · refine m.slotStep.stays (ha.books.phase.no_dial (.inr hp)) ?_
      rw [hconns] at hi
      obtain ⟨c, hc, -⟩ := mem_slotsWhere.mp hi
      rw [hc]
      rfl
  interfere := fun _ _ h => h
  command := fun _ _ _ _ _ h => h

def Command.isRate : Command → Bool
  | .rate _ => true
  | _ => false

/-- A worker in its first BenchMultiplex has not reported one. -/
theorem Dialog.unrated {f : Front} {p : Option (RateJob × ℕ × ℕ)} {r : RatePhase} (h : Dialog f p)
    (hp : f.phase = .rate r) (hone : f.given.countP Command.isRate ≤ 1) : Unrated f.sent := by
  obtain ⟨done, haw, hans⟩ := h.dialog
  intro counts hm
  have hdone : 0 < done.countP Command.isRate := by
    obtain ⟨k, hk⟩ := List.mem_iff_getElem?.mp hm
    obtain ⟨hlt, hget⟩ := List.getElem?_eq_some_iff.mp hk
    have hans' := List.forall₂_iff_get.mp hans
    have hlt' : k < done.length := hans'.1 ▸ hlt
    have ha := hans'.2 k hlt' hlt
    rw [List.get_eq_getElem, List.get_eq_getElem, hget] at ha
    rw [List.countP_pos_iff]
    refine ⟨done[k], List.getElem_mem hlt', ?_⟩
    generalize done[k] = cmd at ha ⊢
    cases ha
    rfl
  cases haw with
  | quiet _ _ hidle => cases hp.symm.trans hidle
  | asked _ _ hidle => cases hp.symm.trans hidle
  | @serving cmd hgiven _ hs =>
    rw [hp] at hs
    cases hs
    rw [hgiven, List.countP_append] at hone
    simp only [List.countP_singleton, Command.isRate, if_true] at hone
    omega
  | prep _ _ hidle => cases hp.symm.trans hidle
  | stopped _ _ hidle => cases hp.symm.trans hidle

/-- In every state of BenchMultiplex each connection has as many requests in flight as it counts, at
most four batches; and every request that was sent is outstanding, was answered, or was ended by a
reset or a close. -/
theorem multiplex_accounts {next : P.H3 → ℕ} (hn : NumbersStreams next) {cfg : EngineConfig}
    {t : Thread P} (ht : t.Reach cfg) (hone : t.w.given.countP Command.isRate ≤ 1) {r : RatePhase}
    (hp : t.w.phase = .rate r) :
    (∀ i ∈ r.conns, ∃ c, t.w.conn i = some c ∧ c.inFlight = c.posted ∧
      c.inFlight ≤ r.job.batch * maxBatchesInFlight) ∧
    r.counts.recvTimes ≤ r.counts.answered ∧ r.counts.answered ≤ r.counts.sendTimes ∧
    r.counts.answered = r.finished ∧
    r.counts.sendTimes - r.counts.answered = t.w.total (fun _ c => c.posted) + r.ended ∧
    r.counts.sendBytes = r.counts.sendTimes * r.job.payload.length ∧
    r.counts.recvBytes = r.counts.recvTimes * r.job.payload.length := by
  have hkept := (kept_regular.and ((kept_ticking.mono (fun _ _ => trivial)).both
    ((connInv_numbered hn).kept.mono (fun _ _ => trivial)))).and (kept_accounts hn)
  obtain ⟨⟨⟨hreg, -⟩, hacc⟩, -⟩ := hkept.reach (fun h hc => h.1.1.queued hc) ht
  obtain ⟨-, hconns, -⟩ := kept_conns.reached ht
  have hsums := hacc (ht.talking.2.unrated hp hone)
  simp only [hp] at hsums
  obtain ⟨hx, -⟩ := hsums
  obtain ⟨hcount, hcard⟩ := hreg.sound.posts
  have hsent : r.counts.sendTimes = r.finished + r.ended + t.w.total (fun _ c => c.posted) :=
    hcard ▸ hx.sent
  have hanswered : r.counts.answered = r.finished := hx.answered
  refine ⟨fun i hi => ?_, hx.recv, by omega, hanswered, by omega, hx.sendBytes, hx.recvBytes⟩
  obtain ⟨c, hc⟩ := Option.isSome_iff_exists.mp (hconns r hp i hi)
  have hflight := hx.flight i
  have hbound := hx.bound i
  rw [hcount i c hc] at hflight
  simp only [Worker.flight, hc, Option.elim_some] at hflight hbound
  exact ⟨c, hc, hflight, hbound⟩

theorem numbersStreams_loopback : NumbersStreams (P := loopback) (fun h : ℕ => h) where
  sent := by
    intro headers fin h q s hs
    simp only [loopback] at hs ⊢
    split at hs
    · cases hs
    · obtain rfl := Except.ok.inj hs
      rw [if_neg ‹_›]
      exact ⟨Nat.le_refl _, Nat.lt_succ_self _⟩
  sendRequest := by
    intro headers fin h q
    simp only [loopback]
    split
    · exact Nat.le_refl _
    · exact Nat.le_succ _
  sendBody := fun _ _ _ _ _ => Nat.le_refl _
  pollAll := by
    intro h q
    cases q <;> exact Nat.le_refl _

/-- Two ticks send four requests; one is answered, and the connection closes with the other three. -/
theorem multiplex_accounts_closed : ∃ (t : Thread loopback) (r : RatePhase),
    t.Reach loopbackConfig ∧ t.w.phase = .rate r ∧ r.counts.sendTimes = 4 ∧ r.counts.answered = 1 ∧
    r.ended = 3 ∧
    r.counts.sendTimes - r.counts.answered = t.w.total (fun _ c => c.posted) + r.ended := by
  obtain ⟨t, ht, hp⟩ := Thread.exists_reach (P := loopback) loopbackConfig
    { polls := [[.waker], [.slot 0], [.slot 0], [.waker], [], [], [.slot 0], [.slot 0]]
      inbox := [([[1]], none), ([[2]], none), ([[2, 7]], none), ([[3]], none)] } 0
    [(.dial 1 1, 15), (.rate ⟨100, 2, 2, [7], false⟩, 26)]
    (fun t => t.w.given.countP Command.isRate ≤ 1 ∧ t.w.phase.book.any (fun b =>
      b.counts.sendTimes = 4 ∧ b.counts.answered = 1 ∧ b.ended = 3)) (by decide +kernel)
  obtain ⟨hone, hbook⟩ := of_decide_eq_true hp
  obtain ⟨b, hb, hcounts⟩ := (Option.any_eq_true ..).mp hbook
  obtain ⟨r, hr, rfl⟩ := Phase.eq_rate hb
  obtain ⟨hsend, hans, hended⟩ := of_decide_eq_true hcounts
  have hacc := multiplex_accounts numbersStreams_loopback ht hone hr
  exact ⟨t, r, ht, hr, hsend, hans, hended, hacc.2.2.2.2.1⟩

end Http3Bench
