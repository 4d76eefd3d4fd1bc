import Http3Bench.Attempts
import Http3Bench.Places

/-!
# The redials of BenchMultiplex

`start` dials the broken connections again and only then installs the phase that counts them. A dial
that comes to an end before that is not counted down: the phase waits for it forever. With a second
attempt to make, or when no attempt is refused while `start` runs, none does, and the phase counts
exactly the redials that are outstanding.
-/

namespace Http3Bench

variable {P : Platform}

/-- What a worker that may attempt a connection `n` times can have to do while `start` runs: first
attempts only, and if one is refused then it is not the last. -/
def Task.Prepares (n : ℕ) : Task → Prop
  | .job j | .dialing j => j.attempt = 1
  | .flush _ | .prep _ _ _ => True
  | .lost j _ => j.attempt = 1 ∧ 2 ≤ n
  | .settle _ | .up _ | .event _ (.response .dial (.ok _) _) => False
  | _ => 2 ≤ n

def NoRead (todo : List Task) : Prop := ∀ t ∈ todo, ∀ i, t ≠ .read i

/-- `start` is dialing `n` broken connections again, and none of the dials has come to an end. A
connection is read only because its first flush failed. -/
structure Preparing (n : ℕ) (x : Mach P) : Prop where
  tasks : ∀ t ∈ x.todo, t.Prepares x.w.cfg.dialRetries
  reads : NoRead x.todo.tail
  failed : ∀ i, x.todo.head? = some (.read i) → ∀ c, x.w.conn i = some c → c.socketError.isSome
  conns : ∀ {i c j}, x.w.conn i = some c → c.dial = some j → j.attempt = 1
  count : (redials x.ops).card = n

theorem prepares_sendTasks {n : ℕ} (hn : 2 ≤ n) (i : ℕ) (kind : ReqKind) (body : Body)
    (r : Except SendError Unit) : ∀ t ∈ sendTasks i kind body r, t.Prepares n := by
  unfold sendTasks
  split
  · split <;> simp [Task.Prepares, hn]
  · simp [Task.Prepares, hn]
  · split <;> simp [Task.Prepares, hn]

theorem prepares_eventTasks {n i : ℕ} {ev : ConnEvent} (h : (Task.event i ev).Prepares n) :
    ∀ t ∈ eventTasks i ev, t.Prepares n := by
  unfold eventTasks
  split
  · simpa [Task.Prepares] using h
  · exact h.elim
  · simpa [Task.Prepares] using h
  · simpa [Task.Prepares] using h
  · simp

theorem prepares_closedTasks {n : ℕ} (hn : 2 ≤ n) (i : ℕ) (reason : String) (s : Option (Conn P)) :
    ∀ t ∈ closedTasks i reason s, t.Prepares n := by
  unfold closedTasks
  split
  · split <;> simp [Task.Prepares, hn]
  · simp

/-- A connection with a socket error answers nothing. -/
theorem prepares_processConn {n i : ℕ} (hn : 2 ≤ n) (check : Bool) {c : Conn P}
    (h : c.socketError.isSome) :
    ∀ t ∈ events i (c.processConn check).2, t.Prepares n := by
  obtain ⟨err, he⟩ := Option.isSome_iff_exists.mp h
  intro t ht
  obtain ⟨ev, hev, rfl⟩ := List.mem_map.mp ht
  simp only [Conn.processConn, he, Conn.shut, Conn.failStreams, List.mem_append, List.mem_map,
    List.mem_singleton] at hev
  rcases hev with (⟨r, -, rfl⟩ | ⟨e, -, rfl⟩) | rfl
  · cases r.1 <;> exact hn
  · cases e.2.kind <;> exact hn
  · exact hn

variable {x x' : Mach P} {ins outs : Multiset Op} {q : RateJob × ℕ × ℕ} {n : ℕ}

theorem Move.refusals_le (m : Move x ins outs x') : x.w.refusals ≤ x'.w.refusals :=
  m.log_suffix.sublist.countP_le

theorem Move.prepares (m : Move x ins outs x') (hq : prepOf x.todo = some q) (h : Preparing n x)
    (hn : x.w.refusals < x'.w.refusals → 2 ≤ x.w.cfg.dialRetries) :
    ∀ t ∈ x'.todo, t.Prepares x.w.cfg.dialRetries := by
  have ht := h.tasks
  have tl : ∀ {t st}, x.todo = t :: st → ∀ t' ∈ st, t'.Prepares x.w.cfg.dialRetries :=
    fun h t' ht' => ht t' (h ▸ List.mem_cons_of_mem _ ht')
  have top : ∀ {t st}, x.todo = t :: st → t.Prepares x.w.cfg.dialRetries :=
    fun h => ht _ (h ▸ List.mem_cons_self)
  cases m with
  | clock => exact ht
  | send hc =>
    have hn := top rfl
    exact List.forall_mem_append.mpr ⟨prepares_sendTasks hn _ _ _ _, tl rfl⟩
  | dequeue => exact List.forall_mem_cons.mpr ⟨top (t := .drain _) rfl, ht⟩
  | event =>
    exact List.forall_mem_append.mpr ⟨prepares_eventTasks (top rfl), tl rfl⟩
  | closedOther =>
    have hn := top (t := .event _ (.closed _)) rfl
    exact List.forall_mem_append.mpr ⟨prepares_closedTasks hn _ _ _, tl rfl⟩
  | upNew => exact (top (t := .up _) rfl).elim
  | upEcho => exact (top (t := .up _) rfl).elim
  | upRate => exact (top (t := .up _) rfl).elim
  | @downNew w st i err c j hc hd hj =>
    have h₁ : j.attempt = 1 := h.conns hc hd
    exact List.forall_mem_cons.mpr ⟨⟨h₁, top (t := .down _ _) rfl⟩, tl rfl⟩
  | downRedial hc hd hj =>
    exact List.forall_mem_cons.mpr ⟨⟨h.conns hc hd, top (t := .down _ _) rfl⟩, tl rfl⟩
  | loseEcho hr =>
    obtain ⟨h₁, h₂⟩ := top (t := .lost _ _) rfl
    exact absurd (h₁ ▸ h₂) hr
  | loseRate hr =>
    obtain ⟨h₁, h₂⟩ := top (t := .lost _ _) rfl
    exact absurd (h₁ ▸ h₂) hr
  | attempt => exact List.forall_mem_cons.mpr ⟨top (t := .job _) rfl, tl rfl⟩
  | refused =>
    refine List.forall_mem_cons.mpr ⟨⟨top (t := .dialing _) rfl, hn ?_⟩, tl rfl⟩
    simp [Worker.refusals, List.countP_cons, Entry.isRefusal]
  | registerFailed =>
    refine List.forall_mem_cons.mpr ⟨⟨top (t := .dialing _) rfl, hn ?_⟩, tl rfl⟩
    simp [Worker.refusals, Worker.wait, List.countP_cons, Entry.isRefusal]
  | seated => exact List.forall_mem_cons.mpr ⟨trivial, tl rfl⟩
  | flushed r as o t hc hr =>
    refine List.forall_mem_append.mpr ⟨?_, tl rfl⟩
    by_cases hs : r.1.socketError.isSome
    · rw [if_pos hs]
      refine List.forall_mem_singleton.mpr (hn ?_)
      rw [Worker.flushed_eq (by exact Worker.lt_of_conn hc)]
      simp [Worker.refusals, hs, Worker.wait, List.countP_cons, Entry.isRefusal]
    · simp [hs]
  | read hc =>
    have hn := top (t := .read _) rfl
    exact List.forall_mem_append.mpr ⟨prepares_processConn hn _ (h.failed _ rfl _ hc),
      List.forall_mem_cons.mpr ⟨hn, tl rfl⟩⟩
  | post =>
    have hn := top (t := .batch _ _ _) rfl
    exact List.forall_mem_cons.mpr ⟨hn, List.forall_mem_cons.mpr ⟨hn, tl rfl⟩⟩
  | _ => first
    | exact tl rfl
    | cases hq

/-- Nothing is to be read, so whatever is to be read is to be read for a reason. -/
theorem NoRead.reads {todo : List Task} (h : NoRead todo) (w : Worker P) :
    NoRead todo.tail ∧ ∀ i, todo.head? = some (.read i) → ∀ c, w.conn i = some c → c.socketError.isSome :=
  ⟨fun t ht => h t (List.mem_of_mem_tail ht),
    fun i hi => absurd rfl (h _ (List.mem_of_mem_head? hi) i)⟩

theorem noRead_of_rank {l : List Task} (h : ∀ t ∈ l, t.rank ≠ 1) : NoRead l := by
  rintro t ht i rfl
  exact h _ ht rfl

theorem Move.reads (m : Move x ins outs x') (hq : prepOf x.todo = some q) (h : Preparing n x) :
    NoRead x'.todo.tail ∧
      ∀ i, x'.todo.head? = some (.read i) → ∀ c, x'.w.conn i = some c → c.socketError.isSome := by
  have tl : ∀ {t st}, x.todo = t :: st → NoRead st := fun he t' ht' => h.reads t' (he ▸ ht')
  have cons : ∀ {t : Task} {st : List Task}, (∀ i, t ≠ .read i) → NoRead st → NoRead (t :: st) :=
    fun ht hst => List.forall_mem_cons.mpr ⟨ht, hst⟩
  have append : ∀ {l st : List Task}, NoRead l → NoRead st → NoRead (l ++ st) :=
    fun hl hst => List.forall_mem_append.mpr ⟨hl, hst⟩
  cases m with
  | clock => exact ⟨h.reads, h.failed⟩
  | send hc =>
    exact (append (noRead_of_rank (fun t ht => by simp [(active_sendTasks _ _ _ _).2 t ht]))
      (tl rfl)).reads _
  | dequeue => exact (cons (by simp) (cons (by simp) (tl rfl))).reads _
  | event =>
    exact (append (noRead_of_rank (fun t ht => by simp [(active_eventTasks _ _).2 t ht]))
      (tl rfl)).reads _
  | closedOther =>
    exact (append (noRead_of_rank (fun t ht => by simp [(active_closedTasks _ _ _).2 t ht]))
      (tl rfl)).reads _
  | @flushed w st i c r as o t hc hr =>
    by_cases hs : r.1.socketError.isSome
    · rw [if_pos hs]
      refine ⟨tl rfl, fun k hk c' hc' => ?_⟩
      obtain rfl : i = k := by simpa using hk
      rw [Worker.flushed_eq (by exact Worker.lt_of_conn hc)] at hc'
      rw [Worker.conn_set rfl (by exact Worker.lt_of_conn hc), if_pos rfl] at hc'
      obtain rfl := Option.some.inj hc'
      unfold Conn.rearm Conn.sentAt
      split <;> exact hs
    · rw [if_neg hs]
      exact (tl rfl).reads _
  | read hc =>
    refine (append ?_ (cons (by simp) (tl rfl))).reads _
    intro t ht i he
    obtain ⟨ev, -, rfl⟩ := List.mem_map.mp ht
    cases he
  | post => exact (cons (by simp) (cons (by simp) (tl rfl))).reads _
  | _ => first
    | exact (tl rfl).reads _
    | exact (cons (by simp) (tl rfl)).reads _
    | cases hq

theorem redials_map_request {α : Type} (l : List α) (f : α → ReqKind) (i : ℕ) :
    redials (l.map (fun a => (f a).op i) : List Op) = 0 := by
  induction l with
  | nil => rfl
  | cons a l ih => rw [List.map_cons, ← Multiset.cons_coe, redials_cons, ih, redials_request, zero_add]

theorem redials_entryOps (c : Conn P) (i : ℕ) : redials (c.entryOps i) = 0 := by
  rw [Conn.entryOps_eq, redials_add, streamOps, queueOps, redials_map_request, redials_map_request,
    zero_add]

theorem redials_sendOuts (i : ℕ) (kind : ReqKind) (old : Option Req) (r : Except SendError Unit) :
    redials (sendOuts i kind old r) = 0 := by
  unfold sendOuts
  split
  · exact redials_map_request _ _ _
  · rfl
  · split
    · rfl
    · exact redials_request _ _

theorem Phase.Books.of_redials {p : Phase} {prep : Option ℕ} {m : Multiset Op} (h : p.Books prep m)
    (hr : redials m ≠ 0) : news m = 0 ∧ echoes m = 0 ∧ (redials m).Nodup := by
  cases p with
  | idle => exact ⟨h.1, h.2.1, h.2.2.1⟩
  | dial d => exact absurd h.2.2.2 hr
  | echo e => exact absurd h.2.1 hr
  | ratePrep job r f => exact ⟨h.1, h.2.1, h.2.2.1⟩
  | rate r => exact absurd h.2.2 hr

theorem Worker.Sound.redials_slotOps {w : Worker P} (h : w.Sound) {i k : ℕ}
    (hk : k ∈ redials (w.slotOps i)) : k = i := by
  unfold Worker.slotOps at hk
  cases hc : w.conn i with
  | none => simp [hc] at hk
  | some c =>
    rw [hc, Option.elim_some, Conn.ops, redials_add, redials_entryOps, add_zero] at hk
    cases hd : c.dial with
    | none => simp [hd] at hk
    | some j =>
      have hs := (h.conns hc).slot j hd
      rw [hd] at hk
      cases hp : j.purpose with
      | redialRate =>
        have hi : i = k := by simpa [DialJob.op, hp, hs, redials, Op.redialed] using hk
        exact hi.symm
      | _ => simp [DialJob.op, hp, redials, Op.redialed] at hk

/-- A slot that is dialed again is not being dialed. -/
theorem Regular.redials_slotOps {w : Worker P} {st : List Task} {j : DialJob}
    (h : Regular ⟨w, .dialing j :: st⟩) : redials (w.slotOps (w.takeSlot j.slot).1) = 0 := by
  cases hslot : j.slot with
  | none => rw [h.books.free.slotOps_alloc]; rfl
  | some i =>
    change redials (w.slotOps i) = 0
    have hle : w.slotOps i + {j.op} ≤ (⟨w, .dialing j :: st⟩ : Mach P).ops := by
      refine add_le_add ((w.slotOps_le_total i).trans (Multiset.le_add_right _ _)) ?_
      rw [agendaOps_cons]
      exact Multiset.le_add_right _ _
    have hr : redials (w.slotOps i) + redials {j.op} ≤
        redials (⟨w, .dialing j :: st⟩ : Mach P).ops := by
      rw [← redials_add]
      exact Multiset.filterMap_le_filterMap _ hle
    by_contra hne
    obtain ⟨k, hk⟩ := Multiset.exists_mem_of_ne_zero hne
    obtain ⟨hn, he, hnd⟩ := h.books.phase.of_redials
      (fun h0 => Multiset.notMem_zero k (h0 ▸ Multiset.mem_of_le ((Multiset.le_add_right _ _).trans hr) hk))
    have hop := (Multiset.le_add_left {j.op} (w.slotOps i)).trans hle
    have hmem : j.slot.getD 0 ∈ redials {j.op} := redialed_mem (Multiset.mem_singleton_self _)
      (Multiset.le_zero.mp (hn ▸ Multiset.filterMap_le_filterMap Op.newId hop))
      (Multiset.le_zero.mp (he ▸ Multiset.filterMap_le_filterMap Op.echoed hop))
    rw [hslot] at hmem
    -- the connection in the slot is dialed into it as well
    rw [h.sound.redials_slotOps hk] at hk
    exact Multiset.disjoint_left.mp (Multiset.nodup_add.mp (Multiset.nodup_of_le hr hnd)).2.2 hk hmem

theorem Phase.ratePrep_of_answer {p : Phase} {res : Except String ℕ} {cause : Cause} {job : RateJob}
    {r f : ℕ} (h : p.answer res cause = .ratePrep job r f) : p = .ratePrep job r f := by
  cases p with
  | rate => cases h
  | _ => exact h

theorem Phase.ratePrep_of_addSent {p : Phase} {n : ℕ} {job : RateJob} {r f : ℕ}
    (h : p.addSent n = .ratePrep job r f) : p = .ratePrep job r f := by
  cases p with
  | rate => cases h
  | _ => exact h

/-- How a move that neither settles a redial nor begins with them leaves the phase. -/
def KeepsPrep (x x' : Mach P) : Prop :=
  ∀ job r f, x'.w.phase = .ratePrep job r f → x.w.phase = .ratePrep job r f ∨
    ∃ before, prepOf x.todo = some (job, r, before) ∧ f = x.w.refusals - before

/-- The redials outstanding are as many as before, unless one is settled or `start` begins. -/
theorem Move.card_redials (m : Move x ins outs x') (h : Regular x) :
    ((redials x'.ops).card = (redials x.ops).card ∧ KeepsPrep x x') ∨
      (∃ j st, x.todo = .settle j :: st ∧ (redials x'.ops).card + 1 = (redials x.ops).card ∧
        ∀ job r f, x'.w.phase = .ratePrep job r f → x.w.phase = .ratePrep job (r + 1) f) ∨
      (∃ job rest, x.w.rx = .rate job :: rest ∧ x'.w.phase = x.w.phase) := by
  have hl := redials_ledger m.ledger
  have same : redials ins = 0 → redials outs = 0 → (redials x'.ops).card = (redials x.ops).card := by
    intro hi ho
    rw [hi, ho, add_zero, add_zero] at hl
    rw [hl]
  have less : redials ins = 0 → (redials outs).card = 1 →
      (redials x'.ops).card + 1 = (redials x.ops).card := by
    intro hi ho
    have hc := congrArg Multiset.card hl
    rwa [Multiset.card_add, Multiset.card_add, ho, hi, Multiset.card_zero, add_zero] at hc
  cases m with
  | send hc =>
    refine .inl ⟨same rfl (redials_sendOuts _ _ _ _), fun _ _ _ hp => .inl ?_⟩
    rwa [Worker.afterSend_eq] at hp
  | @event w st i ev =>
    exact .inl ⟨same (by cases ev <;> rfl) (by unfold eventOuts; split <;> rfl), fun _ _ _ => .inl⟩
  | rateEvent => exact .inl ⟨same rfl rfl, fun _ _ _ hp => .inl (Phase.ratePrep_of_answer hp)⟩
  | upEcho hc hd hj => exact .inl ⟨same rfl (by rw [DialJob.op_echo hj]; rfl), fun _ _ _ => .inl⟩
  | upEchoLate hc hd hj => exact .inl ⟨same rfl (by rw [DialJob.op_echo hj]; rfl), fun _ _ _ => .inl⟩
  | downNew => exact .inl ⟨same rfl (redials_entryOps _ _), fun _ _ _ => .inl⟩
  | downRedial => exact .inl ⟨same rfl (redials_entryOps _ _), fun _ _ _ => .inl⟩
  | loseNew hr hj => exact .inl ⟨same rfl (by rw [DialJob.op_new hj]; rfl), fun _ _ _ hp => (by cases hp)⟩
  | loseNewLate hr hj => exact .inl ⟨same rfl (by rw [DialJob.op_new hj]; rfl), fun _ _ _ => .inl⟩
  | loseEchoNone hr hj => exact .inl ⟨same rfl (by rw [DialJob.op_echo hj]; rfl), fun _ _ _ => .inl⟩
  | newUp =>
    refine .inl ⟨same rfl ?_, fun _ _ _ hp => (by cases hp)⟩
    rw [DialJob.op_new (h.agenda.tasks _ List.mem_cons_self)]
    rfl
  | newUpLate =>
    refine .inl ⟨same rfl ?_, fun _ _ _ => .inl⟩
    rw [DialJob.op_new (h.agenda.tasks _ List.mem_cons_self)]
    rfl
  | settle hp h0 =>
    refine .inr (.inl ⟨_, _, rfl, less rfl ?_, fun job r f hp' => ?_⟩)
    · rw [DialJob.op_rate (h.agenda.tasks _ List.mem_cons_self)]
      rfl
    · obtain ⟨rfl, rfl, rfl⟩ := Phase.ratePrep.inj hp'
      rw [hp, Nat.sub_one_add_one h0]
  | settleLate hp =>
    refine .inr (.inl ⟨_, _, rfl, less rfl ?_, fun job r f hp' => absurd hp' (hp job r f)⟩)
    rw [DialJob.op_rate (h.agenda.tasks _ List.mem_cons_self)]
    rfl
  | @registerFailed w st j err o hlt =>
    refine .inl ⟨same rfl ?_, fun _ _ _ hp => .inl ?_⟩
    · have hz := h.redials_slotOps
      cases hslot : j.slot with
      | none => rfl
      | some i =>
        rw [hslot] at hz
        exact hz
    · simpa only [Worker.wait, Worker.phase_takeSlot] using hp
  | @seated w st j d o₁ o₂ t hlt hidx =>
    rw [DialJob.Placed.op_takeSlot (h.agenda.tasks (.dialing j) List.mem_cons_self) w, redials_cons,
      h.redials_slotOps, add_zero] at hl
    refine .inl ⟨congrArg Multiset.card (add_right_cancel hl), fun _ _ _ hp => .inl ?_⟩
    simpa only [Worker.install, Worker.put, Worker.wait, Worker.phase_takeSlot] using hp
  | flushed r as o t hc hr =>
    refine .inl ⟨same rfl rfl, fun _ _ _ hp => .inl ?_⟩
    rwa [Worker.flushed_eq (by exact Worker.lt_of_conn hc)] at hp
  | timerRearmed ht hc hs =>
    refine .inl ⟨same rfl rfl, fun _ _ _ hp => .inl ?_⟩
    rwa [Worker.schedule_eq (Worker.conn_set rfl (Worker.lt_of_conn hc) _ |>.trans (if_pos rfl))] at hp
  | startRate o t hrx => exact .inr (.inr ⟨_, _, hrx, rfl⟩)
  | @prepared w job n before =>
    refine .inl ⟨same rfl rfl, fun job' r f hp => .inr ⟨before, ?_⟩⟩
    obtain ⟨rfl, rfl, rfl⟩ := Phase.ratePrep.inj hp
    exact ⟨rfl, rfl⟩
  | startDials => exact .inl ⟨same (redials_range _ _) rfl, fun _ _ _ hp => (by cases hp)⟩
  | tickEnd => exact .inl ⟨same rfl rfl, fun _ _ _ hp => .inl (Phase.ratePrep_of_addSent hp)⟩
  | _ => first
    | exact .inl ⟨same rfl rfl, fun _ _ _ => .inl⟩
    | exact .inl ⟨same rfl rfl, fun _ _ _ hp => (by cases hp)⟩

/-- `start` begins with nothing dialed. -/
theorem Move.preparing {w : Worker P} {rest : List Command} {job : RateJob}
    (m : Move ⟨w, []⟩ ins outs x') (hx : Regular ⟨w, []⟩) (hrx : w.rx = .rate job :: rest)
    (hins : redials ins = w.broken) (houts : redials outs = 0) (hslots : x'.w.slots = w.slots)
    (ht : ∀ t ∈ x'.todo, t.Prepares x'.w.cfg.dialRetries) (hr : NoRead x'.todo) :
    Preparing w.broken.length x' := by
  have hidle := hx.agenda.waits
  rw [show (⟨w, []⟩ : Mach P).w.rx = _ from hrx] at hidle
  obtain ⟨hn, he, hz⟩ := hx.books.phase.rest hidle.idle.2.1
  refine ⟨ht, (hr.reads x'.w).1, (hr.reads x'.w).2, fun {i c j} hc hd => ?_, ?_⟩
  · rw [Worker.conn_of_slots_eq hslots] at hc
    have hm := redialed_mem (mem_ops_of_dial (x := ⟨w, []⟩) hc hd) hn he
    rw [hz] at hm
    exact absurd hm (Multiset.notMem_zero _)
  · have hl := redials_ledger m.ledger
    rw [hins, houts, hz, add_zero, zero_add] at hl
    rw [hl]
    rfl

/-- Where `start` is, `start` was, unless it has just begun. -/
theorem Move.prep_of (m : Move x ins outs x') (hx : Regular x) (hq : prepOf x'.todo = some q) :
    prepOf x.todo = some q ∨ (q.2.2 = x'.w.refusals ∧ Preparing q.2.1 x') := by
  have hm := m
  cases m with
  | send => exact .inl (by rwa [prepOf_sendTasks] at hq)
  | event => exact .inl (by rwa [prepOf_eventTasks] at hq)
  | closedOther => exact .inl (by rwa [prepOf_closedTasks] at hq)
  | flushed r as o t hc hr => exact .inl (by rwa [prepOf_flush] at hq)
  | read hc => exact .inl (by rwa [prepOf_events] at hq)
  | @startRate w rest job o t hrx =>
    rw [prepOf_jobs] at hq
    obtain rfl := Option.some.inj hq
    refine .inr ⟨rfl, hm.preparing hx hrx (redials_map _) rfl rfl (fun t ht => ?_) (fun t ht => ?_)⟩
    · rcases List.mem_append.mp ht with ht | ht
      · obtain ⟨j, hj, rfl⟩ := List.mem_map.mp ht
        exact (mem_mkJobs hj).1
      · rw [List.mem_singleton.mp ht]
        trivial
    · rcases List.mem_append.mp ht with ht | ht
      · obtain ⟨j, hj, rfl⟩ := List.mem_map.mp ht
        simp
      · rw [List.mem_singleton.mp ht]
        simp
  | prepared => cases hq
  | startDials =>
    rw [← List.append_nil (List.map _ _), prepOf_jobs] at hq
    cases hq
  | _ => exact .inl hq

theorem Preparing.move (m : Move x ins outs x') (hx : Regular x) (hq : prepOf x.todo = some q)
    (hn : x.w.refusals < x'.w.refusals → 2 ≤ x.w.cfg.dialRetries) (h : Preparing n x) :
    Preparing n x' := by
  obtain ⟨hreads, hfailed⟩ := m.reads hq h
  refine ⟨?_, hreads, hfailed, fun hc hd => ?_, ?_⟩
  · rw [m.cfg]
    exact m.prepares hq h hn
  · rcases m.slotStep.dial_cases hc hd with ⟨c₀, hc₀, hd₀⟩ | ⟨j₀, hj₀, rfl⟩
    · exact h.conns hc₀ hd₀
    · exact h.tasks _ hj₀
  · rcases m.card_redials hx with ⟨hsame, -⟩ | ⟨j, st, htodo, -⟩ | ⟨job, rest, hrx, -⟩
    · exact hsame.trans h.count
    · exact (h.tasks (.settle j) (htodo ▸ List.mem_cons_self)).elim
    · -- no command waits while `start` runs
      have hw := hx.agenda.waits
      rw [hrx] at hw
      have hcalm := hw.idle.2.2
      rw [calm, hq] at hcalm
      cases hcalm

/-- The redials are counted: by `start` while it runs, by the phase after it. -/
structure RedialsOk (x : Mach P) : Prop where
  begun : ∀ q, prepOf x.todo = some q → q.2.2 ≤ x.w.refusals
  start : ∀ q, prepOf x.todo = some q → 2 ≤ x.w.cfg.dialRetries ∨ x.w.refusals = q.2.2 →
    Preparing q.2.1 x
  phase : ∀ job r f, x.w.phase = .ratePrep job r f → 2 ≤ x.w.cfg.dialRetries ∨ f = 0 →
    (redials x.ops).card = r

theorem RedialsOk.move (m : Move x ins outs x') (hx : Regular x) (h : RedialsOk x) : RedialsOk x' := by
  refine ⟨fun q hq => ?_, fun q hq hc => ?_, fun job r f hp hc => ?_⟩
  · rcases m.prep_of hx hq with hq₀ | ⟨he, -⟩
    · exact (h.begun q hq₀).trans m.refusals_le
    · exact he.le
  · rcases m.prep_of hx hq with hq₀ | ⟨-, hprep⟩
    · have hle := h.begun q hq₀
      have hmono := m.refusals_le
      rw [m.cfg] at hc
      refine (h.start q hq₀ (hc.imp_right (by omega))).move m hx hq₀ (fun hlt => ?_)
      exact hc.resolve_right (by omega)
    · exact hprep
  · rw [m.cfg] at hc
    rcases m.card_redials hx with ⟨hsame, hkeep⟩ | ⟨j, st, -, hless, hsettle⟩ |
      ⟨job', rest, hrx, hsame⟩
    · rcases hkeep job r f hp with hp₀ | ⟨before, hq, rfl⟩
      · exact hsame.trans (h.phase job r f hp₀ hc)
      · have hle : before ≤ x.w.refusals := h.begun _ hq
        have hc' : 2 ≤ x.w.cfg.dialRetries ∨ x.w.refusals = before := by omega
        exact hsame.trans (h.start _ hq hc').count
    · have := h.phase job (r + 1) f (hsettle job r f hp) hc
      omega
    · -- a command is taken only by an idle worker, which stays idle while `start` runs
      have hw := hx.agenda.waits
      rw [hrx] at hw
      rw [hsame, hw.idle.2.1] at hp
      cases hp

theorem kept_redials : Kept (Regular (P := P)) RedialsOk where
  new := fun _ _ _ =>
    ⟨fun _ hq => (by cases hq), fun _ hq => (by cases hq), fun _ _ _ hp => (by cases hp)⟩
  move := fun m hx _ h => h.move m hx
  interfere := fun _ _ h => ⟨h.begun, fun _ hq => (by cases hq), h.phase⟩
  command := fun _ _ _ _ _ h => ⟨h.begun, fun _ hq => (by cases hq), h.phase⟩

/-- While the phase waits, its counter is the number of redials still outstanding. -/
theorem redials_outstanding {cfg : EngineConfig} {t : Thread P} {job : RateJob} {r f : ℕ}
    (ht : t.Reach cfg) (hp : t.w.phase = .ratePrep job r f) (hc : 2 ≤ cfg.dialRetries ∨ f = 0) :
    r = (t.w.slotsWhere (Conn.dials (fun p => p = .redialRate))).length +
      t.w.retries.countP (fun q => q.2.purpose = .redialRate) := by
  obtain ⟨hx, hok, -⟩ := kept_redials.reached ht
  rw [← ht.cfg_eq] at hc
  rw [← hok.phase job r f hp hc]
  exact countsDials_redials.rest hx.sound

/-- How many redials the phase waits for, and after how many refusals. -/
def Phase.waiting : Phase → Option (ℕ × ℕ)
  | .ratePrep _ r f => some (r, f)
  | _ => none

theorem Phase.exists_of_waiting {p : Phase} {r f : ℕ} (h : p.waiting = some (r, f)) :
    ∃ job, p = .ratePrep job r f := by
  cases p with
  | ratePrep job r' f' =>
    obtain ⟨rfl, rfl⟩ := Prod.mk.inj (Option.some.inj h)
    exact ⟨job, rfl⟩
  | _ => cases h

/-- A closed connection is dialed again and its handshake has not ended. -/
theorem redials_outstanding_one : ∃ t : Thread loopback, t.Reach loopbackConfig ∧
    t.w.phase.waiting = some (1, 0) ∧
    1 = (t.w.slotsWhere (Conn.dials (fun p => p = .redialRate))).length +
      t.w.retries.countP (fun q => q.2.purpose = .redialRate) := by
  obtain ⟨t, ht, hp⟩ := Thread.exists_reach (P := loopback) loopbackConfig {
      polls := [[.waker], [.slot 0], [.slot 0], [.slot 0], [.waker]]
      inbox := [([[1]], none), ([[2]], none), ([[3]], none)] }
    0 [(.dial 1 1, 22), (.rate ⟨second, 1, second, [7], false⟩, 3)]
    (fun t => t.w.phase.waiting = some (1, 0)) (by decide +kernel)
  have hwait := of_decide_eq_true hp
  obtain ⟨job, hphase⟩ := Phase.exists_of_waiting hwait
  exact ⟨t, ht, hwait, redials_outstanding ht hphase (.inr rfl)⟩

/-- With one attempt for each connection, a redial the kernel has no port for is over before the phase
is installed: the phase waits for it, and nothing is outstanding. -/
theorem redials_outstanding_refused : ¬ ∀ t : Thread loopback, t.Reach loopbackConfig →
    ∀ job r f, t.w.phase = .ratePrep job r f →
      r = (t.w.slotsWhere (Conn.dials (fun p => p = .redialRate))).length +
        t.w.retries.countP (fun q => q.2.purpose = .redialRate) := by
  intro h
  obtain ⟨t, ht, hp⟩ := Thread.exists_reach (P := loopback) loopbackConfig {
      polls := [[.waker], [.slot 0], [.slot 0], [.slot 0], [.waker]]
      inbox := [([[1]], none), ([[2]], none), ([[3]], none)]
      binds := [true, false] }
    0 [(.dial 1 1, 22), (.rate ⟨second, 1, second, [7], false⟩, 3)]
    (fun t => t.w.phase.waiting = some (1, 1) ∧
      (t.w.slotsWhere (Conn.dials (fun p => p = .redialRate))).length +
        t.w.retries.countP (fun q => q.2.purpose = .redialRate) = 0) (by decide +kernel)
  obtain ⟨hwait, hnone⟩ := of_decide_eq_true hp
  obtain ⟨job, hphase⟩ := Phase.exists_of_waiting hwait
  have hone := h t ht job 1 1 hphase
  omega

end Http3Bench
