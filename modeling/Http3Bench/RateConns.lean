import Http3Bench.Calls

/-!
# The connections of BenchMultiplex

`main` reads the ready counters before it sends `Command::Rate` and reports their sum as `Conns`;
a worker takes the connections that are ready when its redials are over. Until then the number of
ready connections goes up with every redial that succeeds and down with every connection that closes.
-/

namespace Http3Bench

variable {P : Platform}

/-- A connection came up that was dialed again before BenchMultiplex starts. -/
def Entry.isRedial : Entry → Bool
  | .up .redialRate => true
  | _ => false

def Worker.redialed (w : Worker P) : ℕ := w.log.countP Entry.isRedial

/-- The phases of a worker that waits for BenchMultiplex, prepares it or runs it. -/
def Phase.Still : Phase → Prop
  | .idle | .ratePrep _ _ _ | .rate _ => True
  | _ => False

/-- Whatever is dialed is dialed again for BenchMultiplex, and no more than `n` connections are up. -/
structure Still (n : ℤ) (x : Mach P) : Prop where
  rx : ∀ cmd ∈ x.w.rx, ∃ job, cmd = .rate job
  ready : x.w.ready ≤ n
  phase : x.w.phase.Still
  conns : ∀ r, x.w.phase = .rate r → x.w.ready ≤ r.conns.length ∧ (r.conns.length : ℤ) ≤ n

/-! ### What a move does to it -/

theorem FrontStep.rx_subset {full : Bool} {f f' : Front} {p p' : Option (RateJob × ℕ × ℕ)}
    (h : FrontStep full f p f' p') : f'.rx ⊆ f.rx := by
  cases h with
  | stop hrx => exact hrx ▸ List.subset_cons_self _ _
  | dial hrx => exact hrx ▸ List.subset_cons_self _ _
  | echo _ hrx => exact hrx ▸ List.subset_cons_self _ _
  | rate _ _ hrx => exact hrx ▸ List.subset_cons_self _ _
  | _ => exact List.Subset.refl _

theorem FrontStep.still {full : Bool} {f f' : Front} {p p' : Option (RateJob × ℕ × ℕ)}
    (h : FrontStep full f p f' p') (hrx : ∀ cmd ∈ f.rx, ∃ job, cmd = .rate job) (hp : f.phase.Still) :
    f'.phase.Still := by
  cases h with
  | failed _ h _ => rw [h] at hp; exact hp.elim
  | connected _ h _ => rw [h] at hp; exact hp.elim
  | complete _ _ _ _ h _ => rw [h] at hp; exact hp.elim
  | begin h _ => rw [h] at hp; exact hp.elim
  | wait _ h => rw [h] at hp; exact hp.elim
  | overdraw h _ => rw [h] at hp; exact hp.elim
  | draw h => rw [h] at hp; exact hp.elim
  | answer r cause =>
    revert hp
    cases f.phase <;> exact id
  | addSent n =>
    revert hp
    cases f.phase <;> exact id
  | dial h =>
    obtain ⟨job, hj⟩ := hrx _ (h ▸ List.mem_cons_self ..)
    cases hj
  | echo _ h =>
    obtain ⟨job, hj⟩ := hrx _ (h ▸ List.mem_cons_self ..)
    cases hj
  | same => exact hp
  | stop => exact hp
  | rate => exact hp
  | settle => trivial
  | prepared => trivial
  | finish => trivial
  | rateStart => trivial
  | rateTimes => trivial

variable {x x' : Mach P} {ins outs : Multiset Op}

theorem Phase.rate_of_answer {p : Phase} {res : Except String ℕ} {cause : Cause} {r : RatePhase}
    (h : p.answer res cause = .rate r) : ∃ r₀, p = .rate r₀ ∧ r.conns = r₀.conns := by
  cases p with
  | rate r₀ =>
    obtain rfl := Phase.rate.inj h
    exact ⟨r₀, rfl, rfl⟩
  | _ => cases h

theorem Phase.rate_of_addSent {p : Phase} {n : ℕ} {r : RatePhase} (h : p.addSent n = .rate r) :
    ∃ r₀, p = .rate r₀ ∧ r.conns = r₀.conns := by
  cases p with
  | rate r₀ =>
    obtain rfl := Phase.rate.inj h
    exact ⟨r₀, rfl, rfl⟩
  | _ => cases h

theorem Move.rateConns (m : Move x ins outs x') {r : RatePhase} (h : x'.w.phase = .rate r) :
    (∃ r₀, x.w.phase = .rate r₀ ∧ r.conns = r₀.conns) ∨
      ((∃ job f, x.w.phase = .ratePrep job 0 f) ∧ r.conns = x.w.serving) := by
  cases m with
  | send hc =>
    rw [Worker.afterSend_eq] at h
    exact .inl ⟨r, h, rfl⟩
  | rateEvent => exact .inl (Phase.rate_of_answer h)
  | registerFailed =>
    simp only [Worker.wait, Worker.phase_takeSlot] at h
    exact .inl ⟨r, h, rfl⟩
  | seated =>
    simp only [Worker.install, Worker.put, Worker.wait, Worker.phase_takeSlot] at h
    exact .inl ⟨r, h, rfl⟩
  | flushed _ as o t hc hr =>
    rw [Worker.flushed_eq (by exact Worker.lt_of_conn hc)] at h
    exact .inl ⟨r, h, rfl⟩
  | timerRearmed ht hc hs =>
    rw [Worker.schedule_eq (Worker.conn_set rfl (Worker.lt_of_conn hc) _ |>.trans (if_pos rfl))] at h
    exact .inl ⟨r, h, rfl⟩
  | rateStart now hp =>
    obtain rfl := Phase.rate.inj h
    exact .inr ⟨⟨_, _, hp⟩, rfl⟩
  | rateTimes next grace hp =>
    obtain rfl := Phase.rate.inj h
    exact .inl ⟨_, hp, rfl⟩
  | tickEnd => exact .inl (Phase.rate_of_addSent h)
  | _ => first | exact .inl ⟨r, h, rfl⟩ | cases h

theorem Worker.ready_takeSlot_le (w : Worker P) (slot : Option ℕ) :
    (w.takeSlot slot).2.ready ≤ w.ready := by
  cases slot with
  | some i =>
    simp only [Worker.takeSlot, Worker.evict]
    split <;> simp
  | none =>
    simp only [Worker.takeSlot, Worker.allocSlot]
    split <;> exact le_refl _

/-- Only a dial that is answered makes a connection ready. -/
theorem SlotStep.ready_le {todo : List Task} {w w' : Worker P} (h : SlotStep todo w w') :
    w'.ready ≤ w.ready ∨ ∃ i c j, todo.head? = some (.up i) ∧ w.conn i = some c ∧ c.dial = some j := by
  cases h with
  | same _ _ hr => exact .inl hr.le
  | change _ _ _ _ hr => exact .inl hr.le
  | closed _ _ _ _ hr => exact .inl (by rw [hr]; omega)
  | up hc hd _ _ _ _ _ hhead => exact .inr ⟨_, _, _, hhead, hc, hd⟩
  | broke _ _ _ _ _ hr => exact .inl hr.le
  | drop _ _ _ _ _ hr => exact .inl hr.le
  | vacate slot _ _ _ hr => exact .inl (hr.le.trans (w.ready_takeSlot_le slot))
  | seat _ j _ _ _ _ _ _ hr => exact .inl (hr.le.trans (w.ready_takeSlot_le j.slot))
  | reset _ _ hr => exact .inl hr.le

/-- What a worker that is still dials is dialed again for BenchMultiplex. -/
theorem Phase.Books.redial {p : Phase} {prep : Option ℕ} {m : Multiset Op} (hb : p.Books prep m)
    (hp : p.Still) {j : DialJob} (hj : j.op ∈ m) : j.purpose = .redialRate := by
  have hz : news m = 0 ∧ echoes m = 0 := by
    cases p with
    | idle => exact ⟨hb.1, hb.2.1⟩
    | ratePrep => exact ⟨hb.1, hb.2.1⟩
    | rate => exact ⟨hb.1, hb.2.1⟩
    | dial => exact hp.elim
    | echo => exact hp.elim
  cases hpurpose : j.purpose with
  | new =>
    have hnew := newId_mem hj hpurpose
    simp [hz.1] at hnew
  | redialEcho s n =>
    rw [DialJob.op_echo hpurpose] at hj
    have hecho : (j.slot.getD 0, n) ∈ echoes m := (Multiset.mem_filterMap _ _).mpr ⟨_, hj, rfl⟩
    simp [hz.2] at hecho
  | redialRate => rfl

theorem Move.log_of_up (m : Move x ins outs x') {i : ℕ} {c : Conn P} {j : DialJob}
    (htodo : x.todo.head? = some (.up i)) (hc : x.w.conn i = some c) (hd : c.dial = some j) :
    x'.w.ready = x.w.ready ∨ x'.w.log = .up j.purpose :: x.w.log := by
  have up : ∀ {w : Worker P} {st : List Task} {k : ℕ} {c' : Conn P} {j' : DialJob},
      x = ⟨w, .up k :: st⟩ → w.conn k = some c' → c'.dial = some j' → j' = j := by
    rintro w st k c' j' rfl hc' hd'
    cases htodo
    obtain rfl := Option.some.inj (hc.symm.trans hc')
    exact Option.some.inj (hd'.symm.trans hd)
  cases m with
  | clock => exact .inl rfl
  | upNone => exact .inl rfl
  | upNew hc' hd' => exact .inr (up rfl hc' hd' ▸ rfl)
  | upEcho hc' hd' => exact .inr (up rfl hc' hd' ▸ rfl)
  | upEchoLate hc' hd' => exact .inr (up rfl hc' hd' ▸ rfl)
  | upRate hc' hd' => exact .inr (up rfl hc' hd' ▸ rfl)
  | _ => cases htodo

/-- A redial succeeds, or no connection comes up. -/
theorem Move.still {n : ℤ} (m : Move x ins outs x') (hx : Regular x) (hok : x.w.ReadyOk)
    (h : Still n x) : x.w.redialed < x'.w.redialed ∨ Still n x' := by
  have hready : x.w.redialed < x'.w.redialed ∨ x'.w.ready ≤ x.w.ready := by
    rcases m.slotStep.ready_le with hle | ⟨i, c, j, htodo, hc, hd⟩
    · exact .inr hle
    · have hj := hx.books.phase.redial h.phase (mem_ops_of_dial hc hd)
      rcases m.log_of_up htodo hc hd with hsame | hlog
      · exact .inr hsame.le
      · rw [Worker.redialed, Worker.redialed, hlog, hj, List.countP_cons_of_pos rfl]
        exact .inl (Nat.lt_succ_self _)
  refine hready.imp_right (fun hready => ⟨fun cmd hc => h.rx cmd (m.front.rx_subset hc),
    hready.trans h.ready, m.front.still h.rx h.phase, fun r hr => ?_⟩)
  rcases m.rateConns hr with ⟨r₀, hr₀, he⟩ | ⟨-, he⟩
  · rw [he]
    exact ⟨hready.trans (h.conns r₀ hr₀).1, (h.conns r₀ hr₀).2⟩
  · rw [he, ← hok.serving]
    exact ⟨hready, h.ready⟩

/-- A turn of a still worker ends a redial with success or leaves it still. -/
theorem Still.turn {n : ℤ} {pt pt' : Point} {w w' : Worker P} (h : turn pt w = .ok pt' w')
    (ha : Regular ⟨w, []⟩) (hok : w.ReadyOk) : w.redialed ≤ w'.redialed ∧
      (Still n ⟨w, []⟩ → w'.redialed = w.redialed → Still n ⟨w', []⟩) := by
  refine turn_keeps (A := fun x => Regular x ∧ x.w.ReadyOk)
    (J := fun x => w.redialed ≤ x.w.redialed ∧
      (Still n ⟨w, []⟩ → x.w.redialed = w.redialed → Still n x))
    (kept_regular.and kept_ready) (fun h hc => h.1.queued hc) ?_ h ⟨ha, hok⟩
    ⟨Nat.le_refl _, fun hs _ => hs⟩
  intro x ins outs x' m hx hj
  have hmono : x.w.redialed ≤ x'.w.redialed := m.log_suffix.sublist.countP_le
  refine ⟨hj.1.trans hmono, fun hs he => ?_⟩
  have he' : x.w.redialed = w.redialed := le_antisymm (hmono.trans he.le) hj.1
  rcases m.still hx.1 hx.2 (hj.2 hs he') with hlt | hstill
  · omega
  · exact hstill

/-! ### From the reading of the counters to the benchmark -/

namespace Bench

/-- An execution, with any number of pauses. -/
structure Run (cfg : EngineConfig) (run : ℕ → Bench P) : Prop where
  start : (run 0).Reach cfg
  step : ∀ k, run (k + 1) = run k ∨ Step (run k) (run (k + 1))

variable {cfg : EngineConfig} {run : ℕ → Bench P} {s s' : Bench P}

theorem Run.reach (h : Run cfg run) (k : ℕ) : (run k).Reach cfg := by
  induction k with
  | zero => exact h.start
  | succ k ih =>
    rcases h.step k with he | hs
    · rw [he]
      exact ih
    · obtain ⟨starts, hrun⟩ := ih
      exact ⟨starts, hrun.tail hs⟩

theorem Step.calls_prefix (h : Step s s') : s.calls <+: s'.calls := by
  cases h with
  | call => exact List.prefix_append _ _
  | _ => exact List.prefix_refl _

theorem Step.of_ready (h : Step s s') (hm : s.main = .ready) :
    (s'.main = .ready ∧ s'.calls = s.calls) ∨ ∃ cmds, s'.calls = s.calls ++ [cmds] := by
  cases h with
  | turn => exact .inl ⟨hm, rfl⟩
  | call cmds => exact .inr ⟨cmds, rfl⟩
  | send hm' => rw [hm] at hm'; cases hm'
  | wait hm' => rw [hm] at hm'; cases hm'
  | recv hm' => rw [hm] at hm'; cases hm'
  | ret hm' => rw [hm] at hm'; cases hm'

theorem Step.length_threads (h : Step s s') : s'.threads.length = s.threads.length := by
  cases h with
  | turn => exact List.length_set ..
  | send => exact List.length_set ..
  | _ => rfl

theorem Run.length_threads (h : Run cfg run) {a b : ℕ} (hab : a ≤ b) :
    (run b).threads.length = (run a).threads.length := by
  induction b, hab using Nat.le_induction with
  | base => rfl
  | succ b _ ih =>
    rcases h.step b with he | hs
    · rw [he]
      exact ih
    · exact hs.length_threads.trans ih

theorem Run.calls_prefix (h : Run cfg run) {a b : ℕ} (hab : a ≤ b) :
    (run a).calls <+: (run b).calls := by
  induction b, hab using Nat.le_induction with
  | base => exact List.prefix_refl _
  | succ b _ ih =>
    rcases h.step b with he | hs
    · rw [he]
      exact ih
    · exact ih.trans hs.calls_prefix

/-- Until the call begins the main thread is ready, and after it no other begins. -/
theorem Run.call_cases (h : Run cfg run) {a b : ℕ} {cmds : List Command}
    (hmain : (run a).main = .ready) (hcall : (run b).calls = (run a).calls ++ [cmds]) {k : ℕ}
    (hak : a ≤ k) (hkb : k ≤ b) :
    ((run k).main = .ready ∧ (run k).calls = (run a).calls) ∨ (run k).calls = (run b).calls := by
  induction k, hak using Nat.le_induction with
  | base => exact .inl ⟨hmain, rfl⟩
  | succ k hak ih =>
    have hpre := h.calls_prefix hkb
    rcases ih (by omega) with ⟨hm, hc⟩ | hc
    · rcases h.step k with he | hs
      · rw [he]
        exact .inl ⟨hm, hc⟩
      · rcases hs.of_ready hm with ⟨hm', hc'⟩ | ⟨cmds', hc'⟩
        · exact .inl ⟨hm', hc'.trans hc⟩
        · refine .inr (hpre.eq_of_length ?_)
          rw [hcall, hc', hc]
          simp
    · have hle := (h.calls_prefix (Nat.le_succ k)).length_le
      exact .inr (hpre.eq_of_length (le_antisymm hpre.length_le (hc ▸ hle)))

/-- A worker that is still goes on being so, or a redial of its has succeeded. -/
def StillOr (n : ℤ) (d i : ℕ) (s : Bench P) : Prop :=
  ∃ t, s.threads[i]? = some t ∧ d ≤ t.w.redialed ∧ (t.w.redialed = d → Still n ⟨t.w, []⟩)

theorem Step.stillOr {n : ℤ} {d i : ℕ} (h : Step s s') (hs : s.Reach cfg) (hw : s.StillOr n d i)
    (hcmd : ∀ cmd rest, s.main = .sending ((i, cmd) :: rest) → ∃ job, cmd = .rate job) :
    s'.StillOr n d i := by
  obtain ⟨t, ht, hd, hstill⟩ := hw
  cases h with
  | @turn k t' pt w ht' hturn =>
    by_cases hk : k = i
    · subst hk
      obtain rfl := Option.some.inj (ht.symm.trans ht')
      have hlt := (List.getElem?_eq_some_iff.mp ht).1
      obtain ⟨os, now, hrun⟩ := (hs.linked.2.ok.reach ht : t.Reach cfg)
      have hreach : (⟨{ t.w with shared := s.shared }, t.pt⟩ : Thread P).Reach cfg :=
        ⟨os, now, hrun.tail (.interfere s.shared)⟩
      refine ⟨⟨w, pt⟩, List.getElem?_set_self hlt, ?_⟩
      obtain ⟨hmono, hnew⟩ := Still.turn (n := n) hturn hreach.talking.1
        (kept_ready.reached hreach).2.1
      have hmono : t.w.redialed ≤ w.redialed := hmono
      refine ⟨hd.trans hmono, fun he => hnew ?_ (le_antisymm (he.le.trans hd) hmono)⟩
      have hold := hstill (le_antisymm (hmono.trans he.le) hd)
      exact ⟨hold.rx, hold.ready, hold.phase, hold.conns⟩
    · exact ⟨t, (List.getElem?_set_ne hk).trans ht, hd, hstill⟩
  | call cmds => exact ⟨t, ht, hd, hstill⟩
  | @send k cmd rest t' hmain ht' =>
    by_cases hk : k = i
    · subst hk
      obtain rfl := Option.some.inj (ht.symm.trans ht')
      have hlt := (List.getElem?_eq_some_iff.mp ht).1
      refine ⟨_, List.getElem?_set_self hlt, hd, fun he => ?_⟩
      have hold := hstill he
      refine ⟨fun c hc => ?_, hold.ready, hold.phase, hold.conns⟩
      rcases List.mem_append.mp hc with hc | hc
      · exact hold.rx c hc
      · rw [List.mem_singleton.mp hc]
        exact hcmd cmd rest hmain
    · exact ⟨t, (List.getElem?_set_ne hk).trans ht, hd, hstill⟩
  | wait => exact ⟨t, ht, hd, hstill⟩
  | recv => exact ⟨t, ht, hd, hstill⟩
  | ret => exact ⟨t, ht, hd, hstill⟩

theorem Run.stillOr {n : ℤ} {d i count : ℕ} {job : RateJob} (h : Run cfg run) {a b : ℕ}
    (hmain : (run a).main = .ready)
    (hcall : (run b).calls = (run a).calls ++ [List.replicate count (.rate job)])
    (hw : (run a).StillOr n d i) {k : ℕ} (hak : a ≤ k) (hkb : k ≤ b) : (run k).StillOr n d i := by
  induction k, hak using Nat.le_induction with
  | base => exact hw
  | succ k hak ih =>
    rcases h.step k with he | hs
    · rw [he]
      exact ih (by omega)
    · refine hs.stillOr (h.reach k) (ih (by omega)) (fun cmd rest hm => ?_)
      -- a command is on its way, so the call has begun
      rcases h.call_cases hmain hcall hak (by omega) with ⟨hm', -⟩ | hc
      · rw [hm] at hm'
        cases hm'
      · obtain ⟨t, ht, -⟩ := ih (by omega)
        have hout : (i, cmd) ∈ (run k).engine.outbox := by simp [engine, hm, Main.outbox]
        have hlast : (run k).calls.getLast? = some (List.replicate count (.rate job)) := by
          rw [hc, hcall]
          simp
        have hwait := ((h.reach k).linked.2.ok.waiting hout ht).2.2 _ hlast
        rw [List.getElem?_replicate] at hwait
        split at hwait
        · exact ⟨job, (Option.some.inj hwait).symm⟩
        · cases hwait

/-- The ready counter of worker `i`. -/
def ready (s : Bench P) (i : ℕ) : ℤ := (s.threads[i]?).elim 0 (fun t => t.w.ready)

theorem Reach.readyOk (h : s.Reach cfg) {i : ℕ} {t : Thread P} (ht : s.threads[i]? = some t) :
    t.w.ReadyOk :=
  (kept_ready.reached (h.linked.2.ok.reach ht : t.Reach cfg)).2.1

/-- Between two calls a worker is still. -/
theorem Reach.still (h : s.Reach cfg) (hmain : s.main = .ready) {i : ℕ} {t : Thread P}
    (ht : s.threads[i]? = some t) : Still t.w.ready ⟨t.w, []⟩ := by
  have hok := h.linked.2.ok
  have hheld := h.linked.1.length_held hok ht
  have hcalls := h.linked.1.calls
  have htold := hok.told (i := i) (by simp [engine, hmain, Main.outbox]) ht
  have hgiven : t.w.given.length = s.calls.length := htold.1
  simp only [hmain, Main.calls] at hheld hcalls
  have hq := (hok.reach ht).talking.2.quiet (by change t.w.given.length ≤ t.w.sent.length; omega)
  have hidle : t.w.phase = .idle := hq.2.1
  have hrx : t.w.rx = [] := hq.1
  refine ⟨by simp [hrx], le_refl _, hidle ▸ trivial, fun r hr => ?_⟩
  rw [hidle] at hr
  cases hr

/-- The benchmark worker `i` is in. -/
def rate? (s : Bench P) (i : ℕ) : Option RatePhase :=
  s.threads[i]?.bind (fun t => match t.w.phase with
    | .rate r => some r
    | _ => none)

theorem exists_of_rate? {i : ℕ} {r : RatePhase} (h : s.rate? i = some r) :
    ∃ t, s.threads[i]? = some t ∧ t.w.phase = .rate r := by
  obtain ⟨t, ht, hr⟩ := Option.bind_eq_some_iff.mp h
  refine ⟨t, ht, ?_⟩
  split at hr
  · rename_i r' hp
    rw [hp, Option.some.inj hr]
  · cases hr

/-- `main` reads the ready counter of worker `i` at the time `reads i` and then calls `Engine::run`
with one `Command::Rate` for each of the `n` workers; at the time `enters i` the worker has entered
`Phase::Rate`, as `r i`. -/
structure Multiplex (run : ℕ → Bench P) (n : ℕ) (job : RateJob) (reads enters : ℕ → ℕ)
    (r : ℕ → RatePhase) : Prop where
  main : ∀ i < n, (run (reads i)).main = .ready
  order : ∀ i < n, reads i ≤ enters i
  call : ∀ i < n, (run (enters i)).calls = (run (reads i)).calls ++ [List.replicate n (.rate job)]
  phase : ∀ i < n, (run (enters i)).rate? i = some (r i)

/-- In between no redial succeeds, and every connection that was ready still is. -/
def Undisturbed (run : ℕ → Bench P) (n : ℕ) (reads enters : ℕ → ℕ) : Prop :=
  ∀ i < n, ∀ t t', (run (reads i)).threads[i]? = some t → (run (enters i)).threads[i]? = some t' →
    t'.w.redialed = t.w.redialed ∧ t.w.serving ⊆ t'.w.serving

/-- The run that takes the actions of a list, one at a time, and skips those that cannot be taken. -/
def trace (s : Bench P) : List Action → ℕ → Bench P
  | [], _ => s
  | _ :: _, 0 => s
  | a :: l, k + 1 => trace ((s.act a).getD s) l k

theorem trace_zero (s : Bench P) (l : List Action) : s.trace l 0 = s := by
  cases l <;> rfl

theorem run_trace (l : List Action) (h : s.Reach cfg) : Run cfg (s.trace l) := by
  refine ⟨(s.trace_zero l).symm ▸ h, fun k => ?_⟩
  clear h
  induction k generalizing s l with
  | zero =>
    cases l with
    | nil => exact .inl rfl
    | cons a l =>
      change trace _ l 0 = s ∨ Step s (trace _ l 0)
      rw [trace_zero]
      cases ha : s.act a with
      | none => exact .inl rfl
      | some s' => exact .inr (step_of_act ha)
  | succ k ih =>
    cases l with
    | nil => exact .inl rfl
    | cons a l => exact ih l

/-- Undisturbed, BenchMultiplex runs on the connections that were counted. -/
theorem multiplex_conns {n : ℕ} {job : RateJob} {reads enters : ℕ → ℕ} {r : ℕ → RatePhase}
    (hrun : Run cfg run) (hm : Multiplex run n job reads enters r)
    (hu : Undisturbed run n reads enters) :
    ∑ i ∈ Finset.range n, (run (reads i)).ready i = ∑ i ∈ Finset.range n, ((r i).conns.length : ℤ) := by
  refine Finset.sum_congr rfl (fun i hi => ?_)
  rw [Finset.mem_range] at hi
  obtain ⟨t', ht', hphase⟩ := exists_of_rate? (hm.phase i hi)
  have hlt : i < (run (reads i)).threads.length := by
    rw [← hrun.length_threads (hm.order i hi)]
    exact (List.getElem?_eq_some_iff.mp ht').1
  have ht := List.getElem?_eq_getElem hlt
  obtain ⟨hredials, hkept⟩ := hu i hi _ t' ht ht'
  have hstart : (run (reads i)).StillOr _ _ i :=
    ⟨_, ht, le_refl _, fun _ => (hrun.reach _).still (hm.main i hi) ht⟩
  obtain ⟨t₁, ht₁, -, hstill⟩ := hrun.stillOr (hm.main i hi) (hm.call i hi) hstart
    (hm.order i hi) le_rfl
  obtain rfl := Option.some.inj (ht'.symm.trans ht₁)
  obtain ⟨hge, hle⟩ := (hstill hredials).conns _ hphase
  -- what was ready still is, so the counter has not gone down either
  have hsame : (run (reads i)).threads[i].w.ready ≤ t'.w.ready := by
    rw [((hrun.reach _).readyOk ht).serving, ((hrun.reach _).readyOk ht').serving]
    exact_mod_cast ((nodup_slotsWhere _ _).subperm hkept).length_le
  have hready : (run (reads i)).ready i = (run (reads i)).threads[i].w.ready := by
    simp only [ready, ht, Option.elim]
  rw [hready]
  exact le_antisymm (hsame.trans hge) hle

/-- The job of a BenchMultiplex of ten seconds. -/
def tenSeconds : RateJob where
  duration := 10 * second
  batch := 1
  tick := second
  payload := [7]
  limited := false

/-- The actions of one worker that dials `count` connections in `n` turns, takes `k` turns with no command
and is then told to run BenchMultiplex. -/
def dialThenRate (count n k : ℕ) : List Action :=
  [.call [.dial count 1], .send, .wait] ++ List.replicate n (.turn 0) ++ [.recv, .ret] ++
    List.replicate k (.turn 0) ++ [.call [.rate tenSeconds], .send] ++ List.replicate 17 (.turn 0)

theorem multiplex_one {job : RateJob} {r : RatePhase} {a b : ℕ} (hab : a ≤ b)
    (hmain : (run a).main.calls = 0) (hcall : (run b).calls = (run a).calls ++ [[.rate job]])
    (hphase : (run b).rate? 0 = some r) :
    Multiplex run 1 job (fun _ => a) (fun _ => b) (fun _ => r) := by
  have hready : (run a).main = .ready := by
    cases hm : (run a).main with
    | ready => rfl
    | sending => rw [hm] at hmain; cases hmain
    | gathering => rw [hm] at hmain; cases hmain
  refine ⟨fun _ _ => hready, fun _ _ => hab, fun _ _ => hcall, fun i hi => ?_⟩
  rw [Nat.lt_one_iff.mp hi]
  exact hphase

/-- One of two connections is closed when the counters are read, and again while it is dialed for the
benchmark; nothing happens to the other. -/
theorem multiplex_conns_one : ∃ (run : ℕ → Bench loopback) (reads enters : ℕ → ℕ) (r : ℕ → RatePhase),
    Run loopbackConfig run ∧ Multiplex run 1 tenSeconds reads enters r ∧
    Undisturbed run 1 reads enters ∧ .attempt .redialRate 4 ∈ (run (enters 0)).threads.flatMap (·.w.log) ∧
    ∑ i ∈ Finset.range 1, (run (reads i)).ready i = ∑ i ∈ Finset.range 1, ((r i).conns.length : ℤ) := by
  let run := trace (new (P := loopback) loopbackConfig [({
      polls := [[.waker], [.slot 0], [.slot 0], [.slot 1], [.slot 1], [.slot 1], [.waker], [.slot 1]]
      inbox := [([[1]], none), ([[2]], none), ([[1]], none), ([[2]], none), ([[3]], none), ([[3]], none)] }, 0)])
    (dialThenRate 2 29 3)
  have hr : ((run 51).rate? 0).isSome := by decide +kernel
  obtain ⟨r, hphase⟩ := Option.isSome_iff_exists.mp hr
  have hrun : Run loopbackConfig run := run_trace _ ⟨_, .refl⟩
  have hm : Multiplex run 1 tenSeconds (fun _ => 37) (fun _ => 51) (fun _ => r) :=
    multiplex_one (by decide) (by decide +kernel) (by decide +kernel) hphase
  have hbefore : ((run 37).threads.map (fun t => (t.w.redialed, t.w.serving))) = [(0, [0])] := by
    decide +kernel
  have hafter : ((run 51).threads.map (fun t => (t.w.redialed, t.w.serving))) = [(0, [0])] := by
    decide +kernel
  have hu : Undisturbed run 1 (fun _ => 37) (fun _ => 51) := by
    intro i hi t t' ht ht'
    have h₁ := List.mem_map_of_mem (List.mem_of_getElem? ht) (f := fun t => (t.w.redialed, t.w.serving))
    have h₂ := List.mem_map_of_mem (List.mem_of_getElem? ht') (f := fun t => (t.w.redialed, t.w.serving))
    rw [hbefore, List.mem_singleton, Prod.mk.injEq] at h₁
    rw [hafter, List.mem_singleton, Prod.mk.injEq] at h₂
    rw [h₁.1, h₁.2, h₂.1, h₂.2]
    exact ⟨rfl, List.Subset.refl _⟩
  exact ⟨run, _, _, _, hrun, hm, hu, by decide +kernel, multiplex_conns hrun hm hu⟩

/-- The only connection is closed when the counters are read, and dialed again before the benchmark
starts: `Conns` is 0, and the benchmark runs on one connection. -/
theorem multiplex_conns_redialed : ¬ ∀ (run : ℕ → Bench loopback) (n : ℕ) (job : RateJob)
    (reads enters : ℕ → ℕ) (r : ℕ → RatePhase), Run loopbackConfig run →
    Multiplex run n job reads enters r →
    ∑ i ∈ Finset.range n, (run (reads i)).ready i = ∑ i ∈ Finset.range n, ((r i).conns.length : ℤ) := by
  intro h
  let run := trace (new (P := loopback) loopbackConfig
    [({ polls := [[.waker], [.slot 0], [.slot 0], [.slot 0], [.waker], [.slot 0], [.slot 0]]
        inbox := [([[1]], none), ([[2]], none), ([[3]], none), ([[1]], none), ([[2]], none)] }, 0)])
    (dialThenRate 1 15 6)
  have hr : ((run 45).rate? 0).any (fun r => r.conns.length = 1) := by decide +kernel
  obtain ⟨r, hphase, hlen⟩ := (Option.any_eq_true ..).mp hr
  have hm : Multiplex run 1 tenSeconds (fun _ => 26) (fun _ => 45) (fun _ => r) :=
    multiplex_one (by decide) (by decide +kernel) (by decide +kernel) hphase
  have hready : (run 26).ready 0 = 0 := by decide +kernel
  have heq := h run 1 tenSeconds _ _ _ (run_trace _ ⟨_, .refl⟩) hm
  rw [Finset.sum_range_one, Finset.sum_range_one, hready, of_decide_eq_true hlen] at heq
  exact absurd heq (by decide)

end Bench
end Http3Bench
