import Http3Bench.Carrying
import Http3Bench.Concurrency

/-!
# The slots of a BenchEcho

While a worker runs BenchEcho, a slot it started with is at rest or has one round trip under way: a
request on its connection, or the redial the request waits for. No round trip gets lost without an
`echo_done`. Where the worker drops requests it drops none of these: the connection it gives up is
being dialed, and a request that takes the stream of another one is the only round trip of its slot.
-/

namespace Http3Bench

variable {P : Platform}

/-- The round trips a phase counts. -/
def Phase.inFlight : Phase → ℕ
  | .echo e => e.inFlight
  | _ => 0

section

variable {x : Mach P} {i : ℕ} {c : Conn P}

theorem Conn.echo_mem_entryOps {a : ℕ × ℕ} (h : a ∈ echoes (c.entryOps i)) :
    a.1 = i ∧ .echo i a.2 ∈ c.entryOps i := by
  obtain ⟨k, n⟩ := a
  have hm := echo_mem.mp h
  obtain ⟨kind, -, hop⟩ := List.mem_map.mp (Multiset.mem_coe.mp hm)
  cases kind with
  | echo s l =>
    obtain ⟨rfl, rfl⟩ := Op.echo.inj hop
    exact ⟨rfl, hm⟩
  | _ => cases hop

/-- A connection that is being dialed carries no round trip. -/
theorem Regular.echoes_entryOps (h : Regular x) (hc : x.w.conn i = some c) (hd : c.dial.isSome) :
    echoes (c.entryOps i) = 0 := by
  by_contra hne
  obtain ⟨a, ha⟩ := Multiset.exists_mem_of_ne_zero hne
  obtain ⟨-, hm⟩ := Conn.echo_mem_entryOps ha
  obtain ⟨j, hj⟩ := Option.isSome_iff_exists.mp hd
  have hle : c.entryOps i + c.dialOps ≤ x.ops := by
    have hslot : x.w.slotOps i = c.ops i := by rw [Worker.slotOps, hc, Option.elim_some]
    rw [add_comm]
    refine le_trans ?_ ((x.w.slotOps_le_total i).trans
      ((Multiset.le_add_right _ _).trans (Multiset.le_add_right _ _)))
    rw [hslot]
    exact le_refl _
  obtain ⟨e, hp⟩ := h.echo_of_mem (Multiset.mem_of_le hle (Multiset.mem_add.mpr (.inl hm)))
  have hb := h.books.phase
  rw [hp] at hb
  have hop : j.op ∈ c.dialOps := by simp [Conn.dialOps, hj]
  cases hpur : j.purpose with
  | new =>
    have := newId_mem (mem_ops_of_dial hc hj) hpur
    simp [hb.1] at this
  | redialEcho s n =>
    rw [DialJob.op_echo hpur, (h.sound.conns hc).slot j hj] at hop
    exact h.one_echo hle hm n hop
  | redialRate =>
    have hmem := mem_ops_of_dial hc hj
    rw [DialJob.op_rate hpur] at hmem
    have : j.slot.getD 0 ∈ redials _ := (Multiset.mem_filterMap _ _).mpr ⟨_, hmem, rfl⟩
    simp [hb.2.1] at this

theorem Conn.overwrites_le (headers : List Header) (body : Body) (c : Conn P) (i : ℕ) :
    ((c.overwrites headers body).toList.map (fun r => r.kind.op i) : List Op) ≤ c.entryOps i := by
  unfold Conn.overwrites
  split
  · exact Multiset.zero_le _
  · split
    · rename_i sid _
      rw [Conn.entryOps_eq, ← streamOps_erase c.streams i sid]
      exact (Multiset.le_add_left _ _).trans (Multiset.le_add_right _ _)
    · exact Multiset.zero_le _

/-- The request `try_send` overwrites is not a round trip. -/
theorem Regular.overwrites {w : Worker P} {kind : ReqKind} {body : Body} {st : List Task}
    (h : Regular ⟨w, .request i kind body :: st⟩) (hg : Gets ⟨w, .request i kind body :: st⟩)
    (ht : Ticking w (.request i kind body :: st)) (hc : w.conn i = some c) (headers : List Header) :
    echoes ((c.overwrites headers body).toList.map (fun r => r.kind.op i) : List Op) = 0 := by
  have hle := c.overwrites_le headers body i
  suffices hz : echoes (c.entryOps i) = 0 by
    exact Multiset.le_zero.mp (hz ▸ Multiset.filterMap_le_filterMap Op.echoed hle)
  cases kind with
  | dial =>
    obtain ⟨c₀, hc₀, -, hd⟩ := hg.dialed i (by rw [gets_eq, taskGets_cons]; simp [Task.ops, ReqKind.op])
    obtain rfl := Option.some.inj (hc.symm.trans hc₀)
    exact h.echoes_entryOps hc hd
  | echo s n =>
    have hz := (h.echoes_slotOps (t := .request i (.echo s n) body) rfl).1
    rw [Worker.slotOps, hc, Option.elim_some, Conn.ops, echoes_add] at hz
    exact (add_eq_zero.mp hz).2
  | rate =>
    by_contra hne
    obtain ⟨a, ha⟩ := Multiset.exists_mem_of_ne_zero hne
    obtain ⟨-, hm⟩ := Conn.echo_mem_entryOps ha
    obtain ⟨e, hp⟩ := h.echo_of_mem
      (mem_ops_of_conn (x := ⟨w, .request i .rate body :: st⟩) hc (Multiset.mem_add.mpr (.inr hm)))
    cases ht with
    | rest hq => cases hq _ List.mem_cons_self
    | request hr => cases hr.symm.trans hp

/-- The connection a dial replaces carries no round trip. -/
theorem Regular.echoes_evicted {w : Worker P} {j : DialJob} {st : List Task}
    (h : Regular ⟨w, .dialing j :: st⟩) (hs : j.slot = some i) : echoes (w.slotOps i) = 0 := by
  have hplaced : j.Placed := h.agenda.tasks (.dialing j) List.mem_cons_self
  cases hpur : j.purpose with
  | new => cases hs.symm.trans (hplaced.mp hpur)
  | redialEcho s n =>
    refine (h.echoes_slotOps (t := .dialing j) (n := n) ?_).1
    simp only [Task.ops, DialJob.op_echo hpur, hs, Option.getD_some]
  | redialRate =>
    by_contra hne
    obtain ⟨⟨k, n⟩, ha⟩ := Multiset.exists_mem_of_ne_zero hne
    have hle : w.slotOps i + (Task.dialing j).ops ≤ (⟨w, .dialing j :: st⟩ : Mach P).ops :=
      Mach.slotOps_add_le
    obtain ⟨e, hp⟩ := h.echo_of_mem
      (Multiset.mem_of_le ((Multiset.le_add_right _ _).trans hle) (echo_mem.mp ha))
    have hb := h.books.phase
    rw [hp] at hb
    have hm : j.op ∈ (⟨w, .dialing j :: st⟩ : Mach P).ops := op_mem_ops rfl
    rw [DialJob.op_rate hpur] at hm
    have : j.slot.getD 0 ∈ redials _ := (Multiset.mem_filterMap _ _).mpr ⟨_, hm, rfl⟩
    simp [hb.2.1] at this

end

variable {x x' : Mach P} {ins outs : Multiset Op}

theorem echoes_sendOuts {i : ℕ} {kind : ReqKind} {old : Option Req}
    (h : echoes (old.toList.map (fun r => r.kind.op i) : List Op) = 0) (r : Except SendError Unit) :
    echoes (sendOuts i kind old r) = 0 := by
  unfold sendOuts
  split
  · exact h
  · rfl
  · split
    · rfl
    · rename_i hk
      cases kind with
      | echo s n => exact absurd rfl (hk s n)
      | _ => rfl

theorem Phase.inFlight_answer (p : Phase) (r : Except String ℕ) (cause : Cause) :
    (p.answer r cause).inFlight = p.inFlight := by
  cases p <;> rfl

theorem Phase.inFlight_addSent (p : Phase) (n : ℕ) : (p.addSent n).inFlight = p.inFlight := by
  cases p <;> rfl

theorem Finishes.inFlight {p : Phase} {o : Outcome} (h : Finishes p o) : p.inFlight = 0 := by
  cases h with
  | echo he hi => exact hi
  | _ => rfl

/-- A move that closes round trips has them counted. -/
theorem Move.inFlight (m : Move x ins outs x') (hx : Regular x) (hg : Gets x)
    (ht : Ticking x.w x.todo) : x'.w.phase.inFlight + (echoes outs).card =
      x.w.phase.inFlight + (echoes ins).card := by
  cases m with
  | @send w st i kind body c hc =>
    rw [Worker.afterSend_eq, echoes_sendOuts (hx.overwrites hg ht hc _)]
    rfl
  | @event w st i ev =>
    have hi : echoes (eventIns i ev) = 0 := by cases ev <;> rfl
    have ho : echoes (eventOuts i ev) = 0 := by
      unfold eventOuts
      split <;> rfl
    rw [hi, ho]
  | rateEvent =>
    simp only [Worker.rateResponse, Phase.inFlight_answer]
    rfl
  | upEcho hc hd hj =>
    rw [DialJob.op_echo hj]
    rfl
  | @upEchoLate w st i c j s n hc hd hj hp =>
    have hm := mem_ops_of_dial (x := ⟨w, .up i :: st⟩) hc hd
    rw [DialJob.op_echo hj] at hm
    obtain ⟨e, he⟩ := hx.echo_of_mem hm
    exact absurd he (hp e)
  | downNew hc hd =>
    rw [hx.echoes_entryOps hc (by simp [hd])]
    rfl
  | downRedial hc hd =>
    rw [hx.echoes_entryOps hc (by simp [hd])]
    rfl
  | loseNew hr hj hp =>
    rw [DialJob.op_new hj, hp]
    rfl
  | loseNewLate hr hj =>
    rw [DialJob.op_new hj]
    rfl
  | loseEchoNone hr hj hs =>
    have hplaced : DialJob.Placed _ := hx.agenda.tasks _ List.mem_cons_self
    cases hj.symm.trans (hplaced.mpr hs)
  | newUp cost hp =>
    rw [DialJob.op_new (hx.agenda.tasks _ List.mem_cons_self), hp]
    rfl
  | newUpLate =>
    rw [DialJob.op_new (hx.agenda.tasks _ List.mem_cons_self)]
    rfl
  | settle hp =>
    rw [DialJob.op_rate (hx.agenda.tasks _ List.mem_cons_self), hp]
    rfl
  | settleLate =>
    rw [DialJob.op_rate (hx.agenda.tasks _ List.mem_cons_self)]
    rfl
  | done cost hp h0 =>
    rw [hp]
    exact Nat.sub_add_cancel (Nat.pos_of_ne_zero h0)
  | @doneLate w st i n r s hp =>
    obtain ⟨e, he⟩ := hx.echo_of_mem (i := i) (n := n) (op_mem_ops rfl)
    exact absurd he (hp e)
  | @registerFailed w st j err o hlt =>
    have hz : echoes (j.slot.elim 0 w.slotOps) = 0 := by
      cases hs : j.slot with
      | none => rfl
      | some i => exact hx.echoes_evicted hs
    simp only [Worker.wait, Worker.phase_takeSlot, hz]
    rfl
  | @seated w st j d o₁ o₂ t hlt hidx =>
    have hplaced : j.Placed := hx.agenda.tasks (.dialing j) List.mem_cons_self
    have hz : echoes (w.slotOps (w.takeSlot j.slot).1) = 0 := by
      cases hs : j.slot with
      | none => rw [hx.books.free.slotOps_alloc]; rfl
      | some i => exact hx.echoes_evicted hs
    simp only [Worker.install, Worker.put, Worker.wait, Worker.phase_takeSlot, echoes_cons, hz,
      hplaced.op_takeSlot w, add_zero]
  | flushed r as o t hc =>
    rw [Worker.flushed_eq (by exact Worker.lt_of_conn hc)]
    rfl
  | timerRearmed ht hc =>
    rw [Worker.schedule_eq (Worker.conn_set rfl (Worker.lt_of_conn hc) _ |>.trans (if_pos rfl))]
    rfl
  | startDial hrx =>
    have hw := hx.agenda.waits
    rw [hrx] at hw
    rw [hw.idle.2.1]
    rfl
  | startEcho hrx =>
    have hw := hx.agenda.waits
    rw [hrx] at hw
    rw [hw.idle.2.1]
    rfl
  | startRate o t hrx =>
    rw [echoes_map_redial]
    rfl
  | prepared =>
    rw [hx.agenda.waits.prep.resolve_right (by simp [calm, prepOf, Task.prepOf])]
    rfl
  | finish hf =>
    rw [hf.inFlight]
    rfl
  | startDials now n hp =>
    rw [echoes_range, hp]
    rfl
  | echoWait t hp => rw [hp]; rfl
  | overdraw hp => rw [hp]; rfl
  | draw hp => rw [hp]; rfl
  | rateStart now hp => rw [hp]; rfl
  | rateTimes a b hp => rw [hp]; rfl
  | tickEnd => simp only [Worker.addSent, Phase.inFlight_addSent]
  | _ => rfl

/-- Every round trip a phase counts is under way. -/
theorem kept_inFlight : Kept (fun x : Mach P => Regular x ∧ Gets x ∧ Ticking x.w x.todo)
    (fun x => (echoes x.ops).card = x.w.phase.inFlight) where
  new := fun _ _ _ => rfl
  move := fun {x ins outs x'} m hx _ h => by
    have hl := congrArg Multiset.card (echoes_ledger m.ledger)
    rw [Multiset.card_add, Multiset.card_add] at hl
    have hm := m.inFlight hx.1 hx.2.1 hx.2.2
    omega
  interfere := fun _ _ h => h
  command := fun _ _ _ _ _ h => h

/-! ### What a slot carries -/

def ReqKind.isEcho : ReqKind → Bool
  | .echo _ _ => true
  | _ => false

def Purpose.isEcho : Purpose → Bool
  | .redialEcho _ _ => true
  | _ => false

/-- The round trips on a connection: the requests in its streams and in its queue, and the one it is
dialed for. -/
def Conn.load (c : Conn P) : ℕ :=
  c.requests.countP ReqKind.isEcho + if c.dials Purpose.isEcho then 1 else 0

/-- The round trips of a slot: on its connection, or waiting for another dial. -/
def Worker.load (w : Worker P) (i : ℕ) : ℕ :=
  (w.conn i).elim 0 Conn.load + w.retries.countP (fun r => r.2.purpose.isEcho && r.2.slot = some i)

def Op.trips (i : ℕ) : Op → Bool
  | .echo k _ => k = i
  | _ => false

theorem count_echoes (i : ℕ) (m : Multiset Op) :
    ((echoes m).map Prod.fst).count i = m.countP (fun o => o.trips i) := by
  induction m using Multiset.induction_on with
  | empty => rfl
  | cons o m ih =>
    rw [echoes_cons, Multiset.map_add, Multiset.count_add, ih, Multiset.countP_cons, add_comm]
    congr 1
    cases o with
    | echo k n =>
      change Multiset.count i {k} = _
      rw [Multiset.count_singleton]
      simp [Op.trips, eq_comm (a := i)]
    | _ => rfl

theorem ReqKind.trips_op (kind : ReqKind) (i k : ℕ) :
    (kind.op k).trips i = (kind.isEcho && k = i) := by
  cases kind <;> rfl

theorem DialJob.trips_op {j : DialJob} {i k : ℕ} (h : j.slot = some k) :
    j.op.trips i = (j.purpose.isEcho && k = i) := by
  unfold DialJob.op
  cases j.purpose <;> simp [Op.trips, Purpose.isEcho, h]

/-- The round trips among the operations of a connection. -/
theorem Conn.Sound.countP_ops {c : Conn P} {k serial : ℕ} (hc : c.Sound k serial) (i : ℕ) :
    (c.ops k).countP (fun o => o.trips i) = if k = i then c.load else 0 := by
  have hdial : (c.dial.toList.map DialJob.op).countP (fun o => o.trips i) =
      if k = i then (if c.dials Purpose.isEcho then 1 else 0) else 0 := by
    cases hd : c.dial with
    | none => simp [Conn.dials, hd]
    | some j =>
      have hs : c.state = .connecting := hc.dial.mpr (by simp [hd])
      simp only [Option.toList_some, List.map_cons, List.map_nil, List.countP_singleton,
        DialJob.trips_op (hc.slot j hd), Conn.dials, hs, hd, Option.any_some]
      by_cases hk : k = i <;> simp [hk]
  have hrequests : (c.requests.map (ReqKind.op k)).countP (fun o => o.trips i) =
      if k = i then c.requests.countP ReqKind.isEcho else 0 := by
    rw [List.countP_map]
    by_cases hk : k = i
    · rw [if_pos hk]
      exact List.countP_congr (fun kind _ => by simp [ReqKind.trips_op, hk])
    · rw [if_neg hk, List.countP_eq_zero]
      intro kind _
      simp [ReqKind.trips_op, hk]
  rw [Conn.ops, Conn.entryOps, Multiset.countP_add, Multiset.coe_countP, Multiset.coe_countP]
  simp only [Bool.decide_eq_true, hdial, hrequests, Conn.load]
  split <;> omega

/-- With nothing on the agenda, the round trips of a slot are what it carries. -/
theorem Regular.load {w : Worker P} (h : Regular ⟨w, []⟩) (i : ℕ) :
    ((echoes (⟨w, []⟩ : Mach P).ops).map Prod.fst).count i = w.load i := by
  have htotal : (w.total (fun k c => c.ops k)).countP (fun o => o.trips i) =
      (w.conn i).elim 0 Conn.load := by
    refine (Worker.map_total (Multiset.countPAddMonoidHom _) _ w).trans ?_
    have hat : ∀ k, (w.conn k).elim 0 (fun c => (c.ops k).countP (fun o => o.trips i)) =
        if k = i then (w.conn k).elim 0 Conn.load else 0 := by
      intro k
      cases hc : w.conn k with
      | none => simp
      | some c => exact (h.sound.conns hc).countP_ops i
    refine (Finset.sum_congr rfl (fun k _ => hat k)).trans ?_
    rw [Finset.sum_ite_eq' (Finset.range w.slots.length) i (fun k => (w.conn k).elim 0 Conn.load)]
    split
    · rfl
    · rename_i hi
      cases hc : w.conn i with
      | none => rfl
      | some c => exact absurd (Finset.mem_range.mpr (Worker.lt_of_conn hc)) hi
  have hretries : w.retryOps.countP (fun o => o.trips i) =
      w.retries.countP (fun r => r.2.purpose.isEcho && r.2.slot = some i) := by
    rw [Worker.retryOps, Multiset.coe_countP, List.countP_map]
    refine List.countP_congr (fun r hr => ?_)
    have hplaced := h.agenda.retries r hr
    cases hs : r.2.slot with
    | none =>
      have hnew := hplaced.mpr hs
      simp [DialJob.op_new hnew, hnew, Op.trips]
    | some k => simp [DialJob.trips_op hs]
  rw [count_echoes, Mach.ops, Multiset.countP_add, Multiset.countP_add, htotal, hretries]
  rfl

/-! ### Requests of BenchMultiplex -/

/-- A request of BenchMultiplex comes from a batch. -/
theorem Move.post_ins (m : Move x ins outs x') {i : ℕ} (h : .post i ∈ ins) :
    ∃ job k st, x.todo = .batch job i k :: st := by
  cases m with
  | @event w st k ev =>
    cases ev with
    | established => cases Multiset.mem_singleton.mp h
    | _ => exact absurd h (Multiset.notMem_zero _)
  | upEcho => cases Multiset.mem_singleton.mp h
  | @seated w st j =>
    have hop := Multiset.mem_singleton.mp h
    cases hp : j.purpose <;> simp [DialJob.op, hp] at hop
  | startRate =>
    obtain ⟨k, -, hop⟩ := List.mem_map.mp (Multiset.mem_coe.mp h)
    cases hop
  | startDials =>
    obtain ⟨k, -, hop⟩ := List.mem_map.mp (Multiset.mem_coe.mp h)
    cases hop
  | draw => cases Multiset.mem_singleton.mp h
  | @post w st job k n =>
    obtain rfl := Op.post.inj (Multiset.mem_singleton.mp h)
    exact ⟨job, n + 1, st, rfl⟩
  | _ => exact absurd h (Multiset.notMem_zero _)

/-- Before BenchMultiplex there are no requests of it. -/
theorem kept_unposted : Kept (fun x : Mach P => Talking x ∧ Ticking x.w x.todo)
    (fun x => (∀ job, .rate job ∉ x.w.given) → ∀ i, .post i ∉ x.ops) where
  new := fun _ _ _ _ _ => Multiset.notMem_zero _
  move := fun {x ins outs x'} m hx _ h hno i hm => by
    have hgiven : x'.w.given = x.w.given := m.front.told.1
    rw [hgiven] at hno
    have hmem : .post i ∈ x.ops + ins := m.ledger ▸ Multiset.mem_add.mpr (.inl hm)
    rcases Multiset.mem_add.mp hmem with hm | hm
    · exact h hno i hm
    · obtain ⟨job, k, st, htodo⟩ := m.post_ins hm
      obtain ⟨r, hp⟩ : ∃ r, x.w.phase = .rate r := by
        have ht := hx.2
        rw [htodo] at ht
        cases ht with
        | rest hq => cases hq _ List.mem_cons_self
        | batch hp => exact ⟨_, hp⟩
      have hbusy : x.w.phase ≠ .idle := by simp [hp]
      obtain ⟨cmd, -, hlast, hserves⟩ := hx.1.2.busy (f := x.w.front) hbusy
      have hserves : Serves cmd x.w.phase := hserves
      rw [hp] at hserves
      cases hserves with
      | rate hj => exact hno _ (List.mem_of_getLast? hlast)
  interfere := fun _ _ h => h
  command := fun cmd _ _ _ _ h hno i => h (fun job hm => hno job (List.mem_append_left _ hm)) i

/-! ### The slots of a BenchEcho -/

/-- What the slots a BenchEcho started with carry. -/
structure EchoPhase.Occupancy (e : EchoPhase) (w : Worker P) : Prop where
  nodup : e.idle.Nodup
  idle : e.idle ⊆ e.captured
  size : e.idle.length + e.inFlight = e.captured.length
  bound : e.inFlight ≤ e.slots
  load : ∀ i ∈ e.captured, w.load i = if i ∈ e.idle then 0 else 1
  /-- A connection with a round trip in its streams or in its queue is in use. -/
  usable : ∀ i c, w.conn i = some c → (∃ kind ∈ c.requests, kind.isEcho) → c.state ≠ .broken
  /-- A connection has one request at a time, left-overs of an earlier BenchMultiplex apart. -/
  single : ∀ i c, w.conn i = some c → c.requests.countP (fun kind => kind ≠ .rate) ≤ 1
  alone : (∀ job, .rate job ∉ w.given) → ∀ i c, w.conn i = some c → c.requests.length ≤ 1
  /-- `idle.pop_front()` finds a slot. -/
  room : e.inFlight < e.slots → e.idle ≠ []

section

variable {w : Worker P} {e : EchoPhase}

theorem EchoPhase.Books.full {m : Multiset (ℕ × ℕ)} (h : e.Books m) (hm : m.card = e.inFlight) :
    (e.idle : Multiset ℕ) + m.map Prod.fst = e.captured := by
  refine Multiset.eq_of_le_of_card_le h.slots ?_
  have hsize := h.size
  simp only [Multiset.card_add, Multiset.coe_card, Multiset.card_map]
  omega

theorem EchoPhase.Books.load {m : Multiset (ℕ × ℕ)} (h : e.Books m) (hm : m.card = e.inFlight) {i : ℕ}
    (hi : i ∈ e.captured) : (m.map Prod.fst).count i = if i ∈ e.idle then 0 else 1 := by
  have hfull := congrArg (Multiset.count i) (h.full hm)
  rw [Multiset.count_add, Multiset.coe_count, Multiset.coe_count,
    List.count_eq_one_of_mem h.nodup hi] at hfull
  split
  · rename_i hidle
    have hpos := List.count_pos_iff.mpr hidle
    omega
  · rename_i hidle
    rw [List.count_eq_zero.mpr hidle] at hfull
    omega

theorem countP_ne_rate (l : List ReqKind) : l.countP (fun kind => kind ≠ .rate) =
    l.countP ReqKind.isEcho + l.countP (fun kind => kind = .dial) := by
  induction l with
  | nil => rfl
  | cons kind l ih =>
    rw [List.countP_cons, List.countP_cons, List.countP_cons, ih]
    cases kind <;> simp [ReqKind.isEcho] <;> omega

theorem Conn.carries_of_isEcho {c : Conn P} {i : ℕ} (h : ∃ kind ∈ c.requests, kind.isEcho) :
    c.Carries i := by
  obtain ⟨kind, hm, he⟩ := h
  cases kind with
  | echo s n => exact ⟨n, Multiset.mem_coe.mpr (List.mem_map.mpr ⟨_, hm, rfl⟩)⟩
  | _ => cases he

theorem Gets.countP_dial {c : Conn P} {i : ℕ} (hg : Gets ⟨w, []⟩) (hc : w.conn i = some c) :
    c.requests.countP (fun kind => kind = .dial) ≤ 1 ∧
      (c.dial = none → c.requests.countP (fun kind => kind = .dial) = 0) := by
  have hcount : (c.entryOps i).count (.get i) = c.requests.countP (fun kind => kind = .dial) := by
    rw [Conn.entryOps, Multiset.coe_count, List.count, List.countP_map]
    refine List.countP_congr (fun kind _ => ?_)
    cases kind <;> simp [ReqKind.op]
  have hgets : gets i ⟨w, []⟩ = c.requests.countP (fun kind => kind = .dial) := by
    rw [gets, count_ops (.inl rfl), hc, Option.elim_some, hcount]
    rfl
  refine ⟨hgets ▸ hg.one i, fun hd => ?_⟩
  by_contra hne
  obtain ⟨c₀, hc₀, -, hdial⟩ := hg.dialed i (hgets ▸ hne)
  obtain rfl := Option.some.inj (hc.symm.trans hc₀)
  rw [hd] at hdial
  cases hdial

/-- A connection has one request at a time. -/
theorem Regular.countP_requests {c : Conn P} {i : ℕ} (hx : Regular ⟨w, []⟩) (hg : Gets ⟨w, []⟩)
    (hcar : Carrying ⟨w, []⟩) (hb : e.Books (echoes (⟨w, []⟩ : Mach P).ops))
    (hload : ∀ i ∈ e.captured, w.load i = if i ∈ e.idle then 0 else 1) (hc : w.conn i = some c) :
    c.requests.countP (fun kind => kind ≠ .rate) ≤ 1 := by
  rw [countP_ne_rate]
  obtain ⟨hone, hnone⟩ := hg.countP_dial hc
  rcases Nat.eq_zero_or_pos (c.requests.countP ReqKind.isEcho) with hzero | hpos
  · rw [hzero, zero_add]
    exact hone
  · have hcarries : c.Carries i := Conn.carries_of_isEcho (List.countP_pos_iff.mp hpos)
    have hready : c.state = .ready := hcar.echo hc hcarries
    have hd : c.dial = none := by
      by_contra hd
      have hs := (hx.sound.conns hc).dial.mpr (Option.isSome_iff_ne_none.mpr hd)
      rw [hready] at hs
      cases hs
    obtain ⟨n, hn⟩ := hcarries
    have hcap : i ∈ e.captured :=
      hb.captured (echo_mem.mpr (mem_ops_of_conn hc (Multiset.mem_add.mpr (.inr hn))))
    have hle : c.requests.countP ReqKind.isEcho ≤ w.load i := by
      rw [Worker.load, hc, Option.elim_some, Conn.load]
      omega
    have hi := hload i hcap
    rw [hnone hd]
    split at hi <;> omega

end

/-- What the slots of a BenchEcho rest on holds in every state a worker reaches. -/
theorem kept_occupied {heard : P.Q → Prop} (hp : ClosesOnInput heard) : Kept (fun _ => True)
    (fun x : Mach P => (Talking x ∧ Gets x ∧ Ticking x.w x.todo ∧ x.w.Every (Conn.Heard heard)) ∧
      Carrying x ∧ (echoes x.ops).card = x.w.phase.inFlight ∧
      ((∀ job, .rate job ∉ x.w.given) → ∀ i, .post i ∉ x.ops)) := by
  have hticking : Kept (Talking (P := P)) (fun x => Ticking x.w x.todo) :=
    kept_ticking.mono (fun _ _ => trivial)
  have hheard : Kept (Talking (P := P)) (fun x => x.w.Every (Conn.Heard heard)) :=
    (connInv_heard hp).kept.mono (fun _ _ => trivial)
  have hgets : Kept (Talking (P := P)) Gets := kept_gets.mono (fun _ h => h.1)
  refine (kept_talking.and (hgets.both (hticking.both hheard))).and ?_
  refine Kept.both ?_ (Kept.both ?_ ?_)
  · exact (kept_carrying hp).mono (fun _ h => ⟨h.1.1, h.2.1, h.2.2.2⟩)
  · exact kept_inFlight.mono (fun _ h => ⟨h.1.1, h.2.1, h.2.2.1⟩)
  · exact kept_unposted.mono (fun _ h => ⟨h.1, h.2.2.1⟩)

theorem Thread.Reach.occupancy {heard : P.Q → Prop} (hp : ClosesOnInput heard) {cfg : EngineConfig}
    {t : Thread P} {e : EchoPhase} (ht : t.Reach cfg) (he : t.w.phase = .echo e) :
    e.Occupancy t.w := by
  obtain ⟨⟨⟨hx, -⟩, hg, -, -⟩, hcar, hcount, hposts⟩ :=
    ((kept_occupied hp).reach (fun h hc => h.1.1.1.queued hc) ht).1
  have hb := hx.books.phase
  have hcount : (echoes (⟨t.w, []⟩ : Mach P).ops).card = e.inFlight := by
    rw [hcount]
    simp only [he, Phase.inFlight]
  simp only [he] at hb
  have hbooks : e.Books (echoes (⟨t.w, []⟩ : Mach P).ops) := hb.2.2
  have hload : ∀ i ∈ e.captured, t.w.load i = if i ∈ e.idle then 0 else 1 :=
    fun i hi => (hx.load i).symm.trans (hbooks.load hcount hi)
  have hsingle : ∀ i c, t.w.conn i = some c → c.requests.countP (fun kind => kind ≠ .rate) ≤ 1 :=
    fun i c hc => hx.countP_requests hg hcar hbooks hload hc
  have hidle : (e.idle : Multiset ℕ) ≤ e.captured := (Multiset.le_add_right _ _).trans hbooks.slots
  refine ⟨?_, fun i hi => ?_, ?_, hbooks.bound, hload, fun i c hc hm => ?_, hsingle,
    fun hno i c hc => ?_, fun hlt hnil => ?_⟩
  · exact Multiset.coe_nodup.mp (Multiset.nodup_of_le hidle (Multiset.coe_nodup.mpr hbooks.nodup))
  · exact Multiset.mem_coe.mp (Multiset.mem_of_le hidle (Multiset.mem_coe.mpr hi))
  · have hsize := hbooks.size
    omega
  · rw [hcar.echo hc (Conn.carries_of_isEcho hm)]
    exact nofun
  · refine le_trans (le_of_eq ?_) (hsingle i c hc)
    refine (List.countP_eq_length.mpr (fun kind hm => ?_)).symm
    refine decide_eq_true (fun hk => hposts hno i ?_)
    refine mem_ops_of_conn hc (Multiset.mem_add.mpr (.inr ?_))
    exact Multiset.mem_coe.mpr (List.mem_map.mpr ⟨kind, hm, by rw [hk]; rfl⟩)
  · have hsize := hbooks.size
    have hroom := hbooks.room
    rw [hnil, List.length_nil] at hsize
    omega

/-! ### All workers -/

/-- `echo_conc` of `main`, which the report records. -/
def echoConc (ec : ℤ) (ready : List ℕ) : ℕ := min (max ec 1).toNat (sumUsize ready)

/-- The round trips under way over all workers. -/
def Engine.inFlight (s : Engine P) : ℕ := (s.threads.map (fun t => t.w.phase.inFlight)).sum

/-- The most round trips a command lets a worker have under way. -/
def Command.trips : Command → ℕ
  | .echo _ conc => conc
  | _ => 0

theorem Serves.inFlight_le {cmd : Command} {p : Phase} (h : Serves cmd p)
    (hb : ∀ e, p = .echo e → e.inFlight ≤ e.slots) : p.inFlight ≤ cmd.trips := by
  cases h with
  | echo hj hs => exact (hb _ rfl).trans hs
  | _ => exact Nat.zero_le _

/-- In every state a worker reaches in BenchEcho, each slot it started with is idle and carries
nothing, or has one round trip under way, on a connection that is not broken or on its way to be
dialed again. Over all workers at most `-ec` round trips are under way. -/
theorem echo_occupancy {heard : P.Q → Prop} (hp : ClosesOnInput heard) {cfg : EngineConfig}
    (s : Engine P) (hs : s.Reach cfg) :
    (∀ t ∈ s.threads, ∀ e, t.w.phase = .echo e → e.Occupancy t.w) ∧
    ∀ (ec : ℤ) (ready : List ℕ) (job : EchoJob), ready.sum < 2 ^ 64 →
      s.rounds.getLast? = some (echoCommands job (echoConc ec ready) ready) →
      s.inFlight ≤ echoConc ec ready := by
  have hslots : ∀ t ∈ s.threads, ∀ e, t.w.phase = .echo e → e.Occupancy t.w := by
    intro t ht e he
    obtain ⟨i, hi⟩ := List.mem_iff_getElem?.mp ht
    exact (hs.ok.reach hi).occupancy hp he
  refine ⟨hslots, fun ec ready job hfit hround => ?_⟩
  have hsum : s.inFlight ≤ ((echoCommands job (echoConc ec ready) ready).map Command.trips).sum :=
    hs.sum_le hround rfl (fun t ht cmd h => h.inFlight_le (fun e he => (hslots t ht e he).bound))
  have hparts : (echoCommands job (echoConc ec ready) ready).map Command.trips =
      splitBy (echoConc ec ready) ready := by
    rw [echoCommands, List.map_map]
    exact List.map_id _
  rw [hparts] at hsum
  exact hsum.trans ((sum_splitBy_le _ hfit).trans (min_le_left _ _))

theorem closesOnInput_loopback : ClosesOnInput (P := loopback) (fun _ => True) where
  established := fun _ _ => trivial
  recv := fun _ _ _ _ _ => trivial
  onTimeout := fun _ _ _ => trivial
  call := fun _ _ => trivial
  stays := fun {q q'} hcall _ hq => by
    cases hcall with
    | sendRequest headers fin h =>
      simp only [loopback]
      split <;> exact hq
    | pollAll h =>
      cases q with
      | answering body => rfl
      | _ => exact hq
    | _ => exact hq

/-- One connection, and its first round trip is under way. -/
theorem echo_occupancy_single : ∃ s : Engine loopback, s.Reach loopbackConfig ∧ s.inFlight = 1 ∧
    s.inFlight ≤ echoConc 2 [1] ∧
      ∃ t ∈ s.threads, ∃ e, t.w.phase = .echo e ∧ t.w.load 0 = 1 ∧ e.Occupancy t.w := by
  obtain ⟨s, hs, hp⟩ := Engine.exists_reach (P := loopback) loopbackConfig [({
      polls := [[.waker], [.slot 0], [.slot 0], [], [.waker]]
      inbox := [([[1]], none), ([[2]], none)] }, 0)]
    ([.run (dialCommands 1 1 1), .send] ++ List.replicate 21 (.turn 0) ++
      [.run (echoCommands ⟨3, [[7]], true, false⟩ (echoConc 2 [1]) [1]), .send] ++
      List.replicate 6 (.turn 0))
    (fun s => s.rounds.getLast? = some (echoCommands ⟨3, [[7]], true, false⟩ (echoConc 2 [1]) [1]) ∧
      s.inFlight = 1 ∧ ∃ t ∈ s.threads, t.w.phase.inFlight = 1 ∧ t.w.load 0 = 1)
    (by decide +kernel)
  obtain ⟨hround, hone, t, ht, hflight, hload⟩ := of_decide_eq_true hp
  obtain ⟨hslots, htotal⟩ := echo_occupancy closesOnInput_loopback s hs
  cases he : t.w.phase with
  | echo e =>
    exact ⟨s, hs, hone, htotal 2 [1] _ (by decide) hround, t, ht, e, he, hload, hslots t ht e he⟩
  | _ => exact absurd hflight (by simp [he, Phase.inFlight])

end Http3Bench
