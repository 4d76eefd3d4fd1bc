import Http3Bench.Books

/-!
# The books are kept

Every move keeps the books of the phase: the ones that change the phase by an entry of their own,
all others because they open nothing the phase counts.
-/

namespace Http3Bench

variable {P : Platform}

section

variable {m m' ins outs : Multiset Op}

theorem news_ledger (h : m' + outs = m + ins) : news m' + news outs = news m + news ins := by
  rw [← news_add, h, news_add]

theorem echoes_ledger (h : m' + outs = m + ins) :
    echoes m' + echoes outs = echoes m + echoes ins := by
  rw [← echoes_add, h, echoes_add]

theorem redials_ledger (h : m' + outs = m + ins) :
    redials m' + redials outs = redials m + redials ins := by
  rw [← redials_add, h, redials_add]

end

/-- What is closed is at least what is opened. -/
theorem le_of_balance {α : Type} {s s' i o : Multiset α} (h : s' + o = s + i) (hio : i ≤ o) :
    s' ≤ s := by
  have : s' + o ≤ s + o := h ▸ add_le_add_right hio s
  exact le_of_add_le_add_right this

theorem eq_of_balance {α : Type} {s s' i o : Multiset α} (h : s' + o = s + i) (hio : o = i) :
    s' = s := by
  rw [hio] at h
  exact add_right_cancel h

/-- Fewer operations, as long as the dial phase keeps its new connections. -/
theorem Phase.Books.mono {p : Phase} {prep : Option ℕ} {m m' : Multiset Op} (h : p.Books prep m)
    (hn : news m' ≤ news m) (he : echoes m' ≤ echoes m) (hr : redials m' ≤ redials m)
    (hd : news m' = news m ∨ ∀ d, p ≠ .dial d) : p.Books prep m' := by
  have zero : ∀ {α : Type} {s t : Multiset α}, s ≤ t → t = 0 → s = 0 := fun hst ht =>
    Multiset.le_zero.mp (ht ▸ hst)
  cases p with
  | idle =>
    exact ⟨zero hn h.1, zero he h.2.1, Multiset.nodup_of_le hr h.2.2.1,
      (Multiset.card_le_card hr).trans h.2.2.2⟩
  | dial d =>
    have hd := hd.resolve_right (fun hd => hd d rfl)
    exact ⟨hd ▸ h.1, hd ▸ h.2.1, zero he h.2.2.1, zero hr h.2.2.2⟩
  | echo e => exact ⟨zero hn h.1, zero hr h.2.1, h.2.2.mono he⟩
  | ratePrep job r f =>
    exact ⟨zero hn h.1, zero he h.2.1, Multiset.nodup_of_le hr h.2.2.1,
      (Multiset.card_le_card hr).trans h.2.2.2⟩
  | rate r => exact ⟨zero hn h.1, zero he h.2.1, zero hr h.2.2⟩

theorem Phase.Books.of_eq {p p' : Phase} {prep : Option ℕ} {m : Multiset Op} (h : p.Books prep m)
    (hp : p' = p) : p'.Books prep m :=
  hp ▸ h

/-- A move that opens only what it closes. -/
theorem Phase.Books.swap {p : Phase} {prep : Option ℕ} {m m' ins outs : Multiset Op}
    (h : p.Books prep m) (hl : m' + outs = m + ins) (hn : news ins ≤ news outs)
    (he : echoes ins ≤ echoes outs) (hr : redials ins ≤ redials outs)
    (hd : news outs = news ins ∨ ∀ d, p ≠ .dial d) : p.Books prep m' :=
  h.mono (le_of_balance (news_ledger hl) hn) (le_of_balance (echoes_ledger hl) he)
    (le_of_balance (redials_ledger hl) hr) (hd.imp_left (eq_of_balance (news_ledger hl)))

/-- A move that opens nothing. -/
theorem Phase.Books.quiet {p : Phase} {prep : Option ℕ} {m m' outs : Multiset Op}
    (h : p.Books prep m) (hl : m' + outs = m + 0) (hd : news outs = 0 ∨ ∀ d, p ≠ .dial d) :
    p.Books prep m' :=
  h.swap hl (Multiset.zero_le _) (Multiset.zero_le _) (Multiset.zero_le _) hd

theorem EchoPhase.taken_draw {e : EchoPhase} {n : ℕ} {rest : List ℕ} (h : n < e.job.times) :
    (e.draw rest n).taken = n :: e.taken :=
  List.filter_cons_of_pos (decide_eq_true h)

theorem EchoPhase.taken_overdraw {e : EchoPhase} {n : ℕ} (h : e.job.times ≤ n) :
    (e.overdraw n).taken = e.taken :=
  List.filter_cons_of_neg (by rw [decide_eq_true_iff]; exact Nat.not_lt.mpr h)

namespace EchoPhase.Books

variable {e : EchoPhase} {m : Multiset (ℕ × ℕ)}

theorem complete {i n : ℕ} (h : e.Books (m + {(i, n)})) (r : Except String ℕ) (cost : ℕ)
    (h0 : e.inFlight ≠ 0) : (e.complete i r cost n).Books m where
  nodup := h.nodup
  slots := by
    have := h.slots
    rw [Multiset.map_add, Multiset.map_singleton] at this
    rw [show ((e.complete i r cost n).idle : Multiset ℕ) = e.idle + {i} from
      (Multiset.coe_add ..).symm]
    refine le_of_eq_of_le ?_ this
    abel
  size := by
    have := h.size
    simp only [EchoPhase.complete, List.length_append, List.length_singleton]
    omega
  bound := (Nat.sub_le _ _).trans h.bound
  room := h.room
  tickets := by
    have := h.tickets
    rw [Multiset.map_add, Multiset.map_singleton] at this
    rw [show ((e.complete i r cost n).completed : Multiset ℕ) = {n} + e.completed from rfl]
    refine le_of_eq_of_le ?_ this
    abel
  count := by
    have := h.count
    change e.completed.length + 1 + (e.inFlight - 1) = e.taken.length
    omega

theorem draw {i n : ℕ} {rest : List ℕ} (h : e.Books m) (hi : e.idle = i :: rest)
    (hn : n < e.job.times) (hlt : e.inFlight < e.slots) :
    (e.draw rest n).Books (m + {(i, n)}) where
  nodup := h.nodup
  slots := by
    have := h.slots
    rw [hi, ← Multiset.cons_coe, ← Multiset.singleton_add] at this
    rw [Multiset.map_add, Multiset.map_singleton]
    refine le_of_eq_of_le ?_ this
    simp only [EchoPhase.draw]
    abel
  size := by
    have := h.size
    rw [hi, List.length_cons] at this
    simp only [EchoPhase.draw]
    omega
  bound := hlt
  room := h.room
  tickets := by
    rw [taken_draw hn, ← Multiset.cons_coe, ← Multiset.singleton_add, Multiset.map_add,
      Multiset.map_singleton, ← add_assoc, add_comm]
    exact add_le_add_right h.tickets _
  count := by
    have := h.count
    rw [taken_draw hn, List.length_cons]
    change e.completed.length + (e.inFlight + 1) = _
    omega

theorem overdraw {n : ℕ} (h : e.Books m) (hn : e.job.times ≤ n) : (e.overdraw n).Books m where
  nodup := h.nodup
  slots := h.slots
  size := h.size
  bound := h.bound
  room := h.room
  tickets := by rw [taken_overdraw hn]; exact h.tickets
  count := by rw [taken_overdraw hn]; exact h.count

theorem waits (h : e.Books m) (t : Option Instant) : ({ e with waitUntil := t } : EchoPhase).Books m :=
  ⟨h.nodup, h.slots, h.size, h.bound, h.room, h.tickets, h.count⟩

theorem start (job : EchoJob) (conc : ℕ) {idle : List ℕ} (h : idle.Nodup) :
    (EchoPhase.start job conc idle).Books 0 where
  nodup := h
  slots := by simp [EchoPhase.start]
  size := by simp [EchoPhase.start]
  bound := Nat.zero_le _
  room := Nat.min_le_right _ _
  tickets := by simp [EchoPhase.start]
  count := rfl

theorem open_le (h : e.Books m) : m.card ≤ e.inFlight := by
  have hc := Multiset.card_le_card h.slots
  have := h.size
  simp only [Multiset.card_add, Multiset.coe_card, Multiset.card_map] at hc
  omega

theorem captured (h : e.Books m) {i n : ℕ} (hm : (i, n) ∈ m) : i ∈ e.captured :=
  Multiset.mem_coe.mp (Multiset.mem_of_le h.slots
    (Multiset.mem_add.mpr (.inr (Multiset.mem_map_of_mem Prod.fst hm))))

end EchoPhase.Books

/-- Nothing is open while a command waits. -/
theorem Phase.Books.rest {p : Phase} {m : Multiset Op} (h : p.Books none m) (hp : p = .idle) :
    news m = 0 ∧ echoes m = 0 ∧ redials m = 0 := by
  subst hp
  exact ⟨h.1, h.2.1, Multiset.card_eq_zero.mp (Nat.le_zero.mp h.2.2.2)⟩

theorem Phase.Books.finish {p : Phase} {o : Outcome} {prep : Option ℕ} {m : Multiset Op}
    (h : p.Books prep m) (hf : Finishes p o) : Phase.idle.Books prep m := by
  suffices hz : news m = 0 ∧ echoes m = 0 ∧ redials m = 0 by
    refine ⟨hz.1, hz.2.1, ?_, ?_⟩ <;> simp [hz.2.2]
  cases hf with
  | dial hr ha => exact ⟨Multiset.card_eq_zero.mp (h.2.1.trans ha), h.2.2.1, h.2.2.2⟩
  | echo he hi =>
    have hc : (echoes m).card = 0 := Nat.le_zero.mp (hi ▸ h.2.2.open_le)
    exact ⟨h.1, Multiset.card_eq_zero.mp hc, h.2.1⟩
  | rate => exact h

theorem Phase.Books.lessNew {d d' : DialPhase} {prep : Option ℕ} {m m' : Multiset Op} {id : ℕ}
    (h : (Phase.dial d).Books prep m) (hl : m' + {.new id} = m + 0)
    (hd : d'.active = d.active - 1) : (Phase.dial d').Books prep m' := by
  have hn : news m' + {id} = news m := (news_ledger hl).trans (add_zero _)
  have he : echoes m' = echoes m := eq_of_balance (echoes_ledger hl) rfl
  have hr : redials m' = redials m := eq_of_balance (redials_ledger hl) rfl
  have hc : (news m').card + 1 = (news m).card := by
    rw [← hn, Multiset.card_add, Multiset.card_singleton]
  have ha := h.2.1
  refine ⟨Multiset.nodup_of_le (hn ▸ Multiset.le_add_right _ _) h.1, ?_, he ▸ h.2.2.1,
    hr ▸ h.2.2.2⟩
  omega

theorem DialJob.op_new {j : DialJob} (h : j.purpose = .new) : j.op = .new j.id := by
  simp [DialJob.op, h]

theorem DialJob.op_rate {j : DialJob} (h : j.purpose = .redialRate) :
    j.op = .redial (j.slot.getD 0) := by
  simp [DialJob.op, h]

theorem DialJob.op_echo {j : DialJob} {s : Instant} {n : ℕ} (h : j.purpose = .redialEcho s n) :
    j.op = .echo (j.slot.getD 0) n := by
  simp [DialJob.op, h]

theorem newId_mem {m : Multiset Op} {j : DialJob} (h : j.op ∈ m) (hp : j.purpose = .new) :
    j.id ∈ news m := by
  rw [DialJob.op_new hp] at h
  exact (Multiset.mem_filterMap _ _).mpr ⟨_, h, rfl⟩

/-- A dial is for a new connection, for a round trip or for BenchMultiplex. -/
theorem redialed_mem {m : Multiset Op} {j : DialJob} (h : j.op ∈ m) (hn : news m = 0)
    (he : echoes m = 0) : j.slot.getD 0 ∈ redials m := by
  cases hp : j.purpose with
  | new =>
    have := newId_mem h hp
    simp [hn] at this
  | redialEcho s n =>
    rw [DialJob.op_echo hp] at h
    have : (j.slot.getD 0, n) ∈ echoes m := (Multiset.mem_filterMap _ _).mpr ⟨_, h, rfl⟩
    simp [he] at this
  | redialRate =>
    rw [DialJob.op_rate hp] at h
    exact (Multiset.mem_filterMap _ _).mpr ⟨_, h, rfl⟩

/-- A job keeps its operation when it is given its slot. -/
theorem DialJob.Placed.op_takeSlot {j : DialJob} (h : j.Placed) (w : Worker P) :
    ({ j with slot := some (w.takeSlot j.slot).1 } : DialJob).op = j.op := by
  cases hslot : j.slot with
  | none => rw [DialJob.op_new (h.mpr hslot), DialJob.op_new (by exact h.mpr hslot)]
  | some i => simp only [DialJob.op, hslot, Worker.takeSlot]

theorem nodup_slotsWhere (w : Worker P) (p : Conn P → Bool) : (w.slotsWhere p).Nodup :=
  List.nodup_range.filter _

theorem mem_slotsWhere {w : Worker P} {p : Conn P → Bool} {i : ℕ} :
    i ∈ w.slotsWhere p ↔ ∃ c, w.conn i = some c ∧ p c = true := by
  simp only [Worker.slotsWhere, List.mem_filter, List.mem_range, Option.any_eq_true]
  exact ⟨fun h => h.2, fun ⟨c, hc, hp⟩ => ⟨Worker.lt_of_conn hc, c, hc, hp⟩⟩

theorem Worker.FreeOk.slotOps_alloc {w : Worker P} (h : w.FreeOk) :
    w.slotOps (w.takeSlot none).1 = 0 := by
  unfold Worker.slotOps
  cases hf : w.free with
  | nil => simp [Worker.takeSlot, Worker.allocSlot, hf, Worker.conn]
  | cons i rest => simp [Worker.takeSlot, Worker.allocSlot, hf, (h.empty i (by simp [hf])).2]

theorem op_mem_ops {w : Worker P} {t : Task} {st : List Task} {o : Op} (h : t.ops = {o}) :
    o ∈ (⟨w, t :: st⟩ : Mach P).ops := by
  simp [Mach.ops, h]

theorem mem_agendaOps {t : Task} {todo : List Task} {o : Op} (ht : t ∈ todo) (ho : o ∈ t.ops) :
    o ∈ agendaOps todo := by
  induction todo with
  | nil => cases ht
  | cons t' rest ih =>
    rw [agendaOps_cons, Multiset.mem_add]
    rcases List.mem_cons.mp ht with rfl | ht
    · exact .inl ho
    · exact .inr (ih ht)

/-- Where a redial can come from. -/
theorem Phase.Books.of_redial {p : Phase} {prep : Option ℕ} {m : Multiset Op} {j : DialJob} {i : ℕ}
    (h : p.Books prep m) (hj : j.Placed) (hs : j.slot = some i) (hm : j.op ∈ m) :
    Reserved p m i ∧ ∀ d, p ≠ .dial d := by
  have hne : j.purpose ≠ .new := fun hn => by simp [hj.mp hn] at hs
  cases hp : j.purpose with
  | new => exact absurd hp hne
  | redialEcho s n =>
    rw [DialJob.op_echo hp, hs] at hm
    have hmem : (i, n) ∈ echoes m := (Multiset.mem_filterMap _ _).mpr ⟨_, hm, rfl⟩
    cases p with
    | echo e => exact ⟨.inl (h.2.2.captured hmem), fun d hd => by cases hd⟩
    | idle => simp [h.2.1] at hmem
    | dial d => simp [h.2.2.1] at hmem
    | ratePrep job r f => simp [h.2.1] at hmem
    | rate r => simp [h.2.1] at hmem
  | redialRate =>
    rw [DialJob.op_rate hp, hs] at hm
    have hmem : i ∈ redials m := (Multiset.mem_filterMap _ _).mpr ⟨_, hm, rfl⟩
    refine ⟨.inr hmem, fun d hd => ?_⟩
    subst hd
    simp [h.2.2.2] at hmem

theorem Phase.Books.answer {p : Phase} {prep : Option ℕ} {m : Multiset Op} (h : p.Books prep m)
    (r : Except String ℕ) (cause : Cause) : (p.answer r cause).Books prep m := by
  cases p <;> exact h

theorem Phase.Books.addSent {p : Phase} {prep : Option ℕ} {m : Multiset Op} (h : p.Books prep m)
    (n : ℕ) : (p.addSent n).Books prep m := by
  cases p <;> exact h

theorem news_range (serial n : ℕ) :
    news ((List.range n).map (fun k => Op.new (serial + k)) : List Op) =
      ((List.range n).map (fun k => serial + k) : List ℕ) := by
  rw [news, Multiset.filterMap_coe, List.filterMap_map]
  exact congrArg _ (congrFun (List.filterMap_eq_map (f := fun k => serial + k)) _)

theorem echoes_range (serial n : ℕ) :
    echoes ((List.range n).map (fun k => Op.new (serial + k)) : List Op) = 0 := by
  rw [echoes, Multiset.filterMap_coe, List.filterMap_map]
  simp [Function.comp_def, Op.echoed]

theorem redials_range (serial n : ℕ) :
    redials ((List.range n).map (fun k => Op.new (serial + k)) : List Op) = 0 := by
  rw [redials, Multiset.filterMap_coe, List.filterMap_map]
  simp [Function.comp_def, Op.redialed]

theorem redials_map (is : List ℕ) : redials (is.map Op.redial : List Op) = is := by
  rw [redials, Multiset.filterMap_coe, List.filterMap_map]
  simp [Function.comp_def, Op.redialed]

theorem news_map_redial (is : List ℕ) : news (is.map Op.redial : List Op) = 0 := by
  rw [news, Multiset.filterMap_coe, List.filterMap_map]
  simp [Function.comp_def, Op.newId]

theorem echoes_map_redial (is : List ℕ) : echoes (is.map Op.redial : List Op) = 0 := by
  rw [echoes, Multiset.filterMap_coe, List.filterMap_map]
  simp [Function.comp_def, Op.echoed]

theorem Phase.Books.begin {d : DialPhase} {prep prep' : Option ℕ} {m m' : Multiset Op}
    {starts serial : ℕ} (h : (Phase.dial d).Books prep m) (hids : ∀ id ∈ news m, id < serial)
    (hl : m' + 0 = m + ((List.range starts).map (fun k => Op.new (serial + k)) : List Op)) :
    (Phase.dial (d.begin starts)).Books prep' m' := by
  have hn := news_ledger hl
  have he := echoes_ledger hl
  have hr := redials_ledger hl
  rw [news_range, news_zero, add_zero] at hn
  rw [echoes_range, echoes_zero, add_zero, add_zero] at he
  rw [redials_range, redials_zero, add_zero, add_zero] at hr
  refine ⟨?_, ?_, he ▸ h.2.2.1, hr ▸ h.2.2.2⟩
  · rw [hn, Multiset.nodup_add]
    refine ⟨h.1, ?_, ?_⟩
    · exact Multiset.coe_nodup.mpr (List.nodup_range.map (fun a b hab => by simpa using hab))
    · refine Multiset.disjoint_left.mpr (fun {a} ha hb => ?_)
      obtain ⟨k, _, rfl⟩ := List.mem_map.mp (Multiset.mem_coe.mp hb)
      exact absurd (hids _ ha) (by omega)
  · rw [hn, Multiset.card_add, h.2.1]
    simp [DialPhase.begin]

section

variable {x x' : Mach P} {ins outs : Multiset Op}

theorem Move.phaseBooks (m : Move x ins outs x') (hs : x.w.Sound) (ha : Agenda x) (h : Books x) :
    x'.w.phase.Books (prepSize x'.todo) x'.ops := by
  have hl := m.ledger
  have hb := h.phase
  cases m with
  | send hc =>
    rw [Worker.afterSend_eq, prepSize, prepOf_sendTasks] at *
    exact hb.quiet hl (.inl (news_sendOuts _ _ _ _))
  | @event w st i ev =>
    rw [prepSize, prepOf_eventTasks]
    have hq : news (eventIns i ev) = 0 ∧ echoes (eventIns i ev) = 0 ∧ redials (eventIns i ev) = 0 := by
      cases ev <;> exact ⟨rfl, rfl, rfl⟩
    refine hb.swap hl ?_ ?_ ?_ (.inl ?_)
    · simp [hq.1]
    · simp [hq.2.1]
    · simp [hq.2.2]
    · rw [news_eventOuts, hq.1]
  | closedOther =>
    rw [prepSize, prepOf_closedTasks]
    exact hb.quiet hl (.inl rfl)
  | rateEvent => exact (hb.quiet hl (.inl rfl)).answer _ _
  | upEcho hc hd hj hp =>
    rw [DialJob.op_echo hj, (hs.conns hc).slot _ hd] at hl
    exact hb.swap hl (le_refl _) (le_refl _) (le_refl _) (.inl rfl)
  | upEchoLate hc hd hj hp =>
    rw [DialJob.op_echo hj] at hl
    exact hb.quiet hl (.inl rfl)
  | downNew => exact hb.quiet hl (.inl (news_entryOps _ _))
  | downRedial => exact hb.quiet hl (.inl (news_entryOps _ _))
  | loseNew hr hj hp =>
    rw [DialJob.op_new hj] at hl
    rw [hp] at hb
    exact hb.lessNew hl rfl
  | loseNewLate hr hj hp => exact hb.quiet hl (.inr hp)
  | loseEchoNone hr hj hp =>
    rw [DialJob.op_echo hj] at hl
    exact hb.quiet hl (.inl rfl)
  | newUp cost hp =>
    rw [DialJob.op_new (ha.tasks _ List.mem_cons_self)] at hl
    rw [hp] at hb
    exact hb.lessNew hl rfl
  | newUpLate hp => exact hb.quiet hl (.inr hp)
  | @settle w st j job r f hp h0 =>
    rw [DialJob.op_rate (ha.tasks _ List.mem_cons_self)] at hl
    rw [hp] at hb
    have hr : redials _ + {j.slot.getD 0} = _ := (redials_ledger hl).trans (add_zero _)
    have hq := hb.quiet hl (.inl rfl)
    refine ⟨hq.1, hq.2.1, hq.2.2.1, ?_⟩
    have hc := hb.2.2.2
    rw [← hr, Multiset.card_add, Multiset.card_singleton] at hc
    exact Nat.le_sub_one_of_lt hc
  | settleLate hp =>
    rw [DialJob.op_rate (ha.tasks _ List.mem_cons_self)] at hl
    exact hb.quiet hl (.inl rfl)
  | @done w st i n r s e cost hp h0 =>
    rw [hp] at hb
    have hq := hb.quiet hl (.inl rfl)
    have he : echoes _ + {(i, n)} = _ := (echoes_ledger hl).trans (add_zero _)
    exact ⟨hq.1, hq.2.1, (he ▸ hb.2.2).complete r cost h0⟩
  | @registerFailed w st j err o hlt =>
    refine (hb.quiet hl ?_).of_eq (by simp only [Worker.wait, Worker.phase_takeSlot])
    cases hslot : j.slot with
    | none => exact .inl rfl
    | some i =>
      exact .inr (hb.of_redial (ha.tasks _ List.mem_cons_self) hslot (op_mem_ops rfl)).2
  | @seated w st j d o₁ o₂ t hlt hidx =>
    have hj : j.Placed := ha.tasks (.dialing j) List.mem_cons_self
    rw [hj.op_takeSlot w] at hl
    have hle : {j.op} ≤ j.op ::ₘ w.slotOps (w.takeSlot j.slot).1 :=
      Multiset.singleton_le.mpr (Multiset.mem_cons_self _ _)
    refine (hb.swap hl (Multiset.filterMap_le_filterMap _ hle)
      (Multiset.filterMap_le_filterMap _ hle) (Multiset.filterMap_le_filterMap _ hle) ?_).of_eq
      (by simp only [Worker.install, Worker.put, Worker.wait, Worker.phase_takeSlot])
    cases hslot : j.slot with
    | none => exact .inl (by rw [h.free.slotOps_alloc]; rfl)
    | some i => exact .inr (hb.of_redial hj hslot (op_mem_ops rfl)).2
  | flushed r as o t hc hr =>
    rw [Worker.flushed_eq (by exact Worker.lt_of_conn hc)] at *
    rw [prepSize, prepOf_flush]
    exact hb.quiet hl (.inl rfl)
  | read hc =>
    rw [prepSize, prepOf_events]
    exact hb.quiet hl (.inl rfl)
  | timerRearmed ht hc hs =>
    rw [Worker.schedule_eq (Worker.conn_set rfl (Worker.lt_of_conn hc) _ |>.trans (if_pos rfl))] at *
    exact hb.quiet hl (.inl rfl)
  | startDial hrx =>
    have hw := ha.waits
    rw [hrx] at hw
    have hq := hb.quiet hl (.inl rfl)
    obtain ⟨hn, he, hr⟩ := Phase.Books.rest hq hw.idle.2.1
    exact ⟨hn ▸ Multiset.nodup_zero, hn ▸ Multiset.card_zero, he, hr⟩
  | startEcho hrx =>
    have hw := ha.waits
    rw [hrx] at hw
    have hq := hb.quiet hl (.inl rfl)
    obtain ⟨hn, he, hr⟩ := Phase.Books.rest hq hw.idle.2.1
    exact ⟨hn, hr, he ▸ .start _ _ (nodup_slotsWhere _ _)⟩
  | @startRate w rest job o t hrx =>
    have hw := ha.waits
    rw [hrx] at hw
    obtain ⟨hn, he, hr⟩ := Phase.Books.rest hb hw.idle.2.1
    refine Phase.Books.of_eq (p := .idle) ?_ hw.idle.2.1
    have hprep : prepSize ((mkJobs (w.clock + t) .redialRate w.serial (w.broken.map some)).map
        Task.job ++ [.prep job w.broken.length w.refusals]) = some w.broken.length := by
      rw [prepSize, prepOf_jobs]
      rfl
    have hn' := news_ledger hl
    have he' := echoes_ledger hl
    have hr' := redials_ledger hl
    rw [hn, news_map_redial, news_zero, add_zero, add_zero] at hn'
    rw [he, echoes_map_redial, echoes_zero, add_zero, add_zero] at he'
    rw [hr, redials_map, redials_zero, add_zero, zero_add] at hr'
    refine ⟨hn', he', ?_, ?_⟩
    · rw [hr']
      exact Multiset.coe_nodup.mpr (nodup_slotsWhere _ _)
    · rw [hr', hprep]
      exact Nat.le_refl _
  | prepared =>
    have hw := ha.waits.prep.resolve_right (by simp [calm, prepOf, Task.prepOf])
    rw [hw] at hb
    exact hb.quiet hl (.inl rfl)
  | finish hf => exact (hb.finish hf).quiet hl (.inl rfl)
  | startDials now n hp hn =>
    rw [hp] at hb
    exact hb.begin h.ids hl
  | echoWait t hp =>
    rw [hp] at hb
    have hq := hb.quiet hl (.inl rfl)
    exact ⟨hq.1, hq.2.1, hq.2.2.waits t⟩
  | overdraw hp hn =>
    rw [hp] at hb
    have hq := hb.quiet hl (.inl rfl)
    exact ⟨hq.1, hq.2.1, hq.2.2.overdraw hn⟩
  | draw hp hx hlt hi hn =>
    rw [hp] at hb
    have he : echoes _ + 0 = _ + {(_, _)} := echoes_ledger hl
    have hn' := eq_of_balance (news_ledger hl) rfl
    have hr := eq_of_balance (redials_ledger hl) rfl
    rw [add_zero] at he
    exact ⟨hn' ▸ hb.1, hr ▸ hb.2.1, he ▸ hb.2.2.draw hi hn hlt⟩
  | rateStart now hp =>
    rw [hp] at hb
    have hq := hb.quiet hl (.inl rfl)
    exact ⟨hq.1, hq.2.1, Multiset.card_eq_zero.mp (Nat.le_zero.mp hq.2.2.2)⟩
  | rateTimes a b hp =>
    rw [hp] at hb
    exact hb.quiet hl (.inl rfl)
  | post => exact hb.swap hl (le_refl _) (le_refl _) (le_refl _) (.inl rfl)
  | tickEnd =>
    have hq := hb.quiet hl (.inl rfl)
    exact hq.addSent _
  | _ => exact hb.quiet hl (.inl rfl)

/-- The new connections a move begins have identities of their own. -/
theorem Move.news_ins (m : Move x ins outs x') {id : ℕ} (hid : id ∈ news ins) :
    id ∈ news x.ops ∨ (x.w.serial ≤ id ∧ id < x'.w.serial) := by
  cases m with
  | @event w st i ev =>
    cases ev <;> exact absurd hid (Multiset.notMem_zero _)
  | @seated w st j =>
    left
    cases hj : j.purpose with
    | new =>
      rw [DialJob.op_new (by exact hj)] at hid
      have hm : j.op ∈ (⟨w, .dialing j :: st⟩ : Mach P).ops := op_mem_ops rfl
      rw [DialJob.op_new hj] at hm
      exact (Multiset.mem_filterMap _ _).mpr ⟨_, hm, (Multiset.mem_singleton.mp hid) ▸ rfl⟩
    | redialEcho s n =>
      rw [DialJob.op_echo (by exact hj)] at hid
      exact absurd hid (Multiset.notMem_zero _)
    | redialRate =>
      rw [DialJob.op_rate (by exact hj)] at hid
      exact absurd hid (Multiset.notMem_zero _)
  | startRate =>
    rw [news_map_redial] at hid
    exact absurd hid (Multiset.notMem_zero _)
  | startDials now n =>
    rw [news_range] at hid
    obtain ⟨k, hk, rfl⟩ := List.mem_map.mp (Multiset.mem_coe.mp hid)
    rw [List.mem_range] at hk
    exact .inr ⟨Nat.le_add_right _ _, Nat.add_lt_add_left hk _⟩
  | _ => exact absurd hid (Multiset.notMem_zero _)

theorem Move.ids (m : Move x ins outs x') (h : ∀ id ∈ news x.ops, id < x.w.serial) :
    ∀ id ∈ news x'.ops, id < x'.w.serial := by
  intro id hid
  have hid' : id ∈ news x.ops + news ins :=
    news_ledger m.ledger ▸ Multiset.mem_add.mpr (.inl hid)
  rcases Multiset.mem_add.mp hid' with ho | hi
  · exact (h id ho).trans_le m.slotStep.serial_le
  · rcases m.news_ins hi with ho | hi
    · exact (h id ho).trans_le m.slotStep.serial_le
    · exact hi.2

end

namespace Worker.FreeOk

variable {w w' : Worker P} {i : ℕ} {s : Option (Conn P)}

theorem notMem (h : w.FreeOk) {c : Conn P} (hc : w.conn i = some c) : i ∉ w.free := fun hi => by
  simp [(h.empty i hi).2] at hc

/-- A slot that is not free changes. -/
theorem set (h : w.FreeOk) (hi : i ∉ w.free) (hlt : i < w.slots.length)
    (hs : w'.slots = w.slots.set i s) (hf : w'.free = w.free) : w'.FreeOk where
  nodup := hf ▸ h.nodup
  empty := by
    intro k hk
    rw [hf] at hk
    have hne : k ≠ i := fun hki => hi (hki ▸ hk)
    rw [conn_set hs hlt, if_neg hne, hs, List.length_set]
    exact h.empty k hk

theorem takeSlot (h : w.FreeOk) {slot : Option ℕ}
    (hlt : ∀ i, slot = some i → i < w.slots.length) : (w.takeSlot slot).2.FreeOk := by
  cases slot with
  | some i =>
    refine ⟨h.nodup, fun k hk => ?_⟩
    rw [conn_set (w := w) rfl (hlt i rfl)]
    have := h.empty k hk
    simp [Worker.takeSlot, evict, this]
  | none =>
    cases hf : w.free with
    | nil =>
      simp only [Worker.takeSlot, allocSlot, hf]
      exact ⟨List.nodup_nil, by simp⟩
    | cons i rest =>
      simp only [Worker.takeSlot, allocSlot, hf]
      have hn := h.nodup
      rw [hf] at hn
      exact ⟨(List.nodup_cons.mp hn).2, fun k hk => h.empty k (by simp [hf, hk])⟩

theorem notMem_takeSlot (h : w.FreeOk) {slot : Option ℕ} (hi : ∀ i, slot = some i → i ∉ w.free) :
    (w.takeSlot slot).1 ∉ (w.takeSlot slot).2.free := by
  cases slot with
  | some i => exact hi i rfl
  | none =>
    cases hf : w.free with
    | nil => simp [Worker.takeSlot, allocSlot, hf]
    | cons i rest =>
      have hn := h.nodup
      rw [hf] at hn
      simpa [Worker.takeSlot, allocSlot, hf] using (List.nodup_cons.mp hn).1

end Worker.FreeOk

section

variable {w w' : Worker P} {todo : List Task}

theorem SlotStep.freeOk (hs : SlotStep todo w w') (h : w.FreeOk)
    (hd : ∀ j, .dialing j ∈ todo → ∀ i, j.slot = some i → i ∉ w.free) : w'.FreeOk := by
  cases hs with
  | same hs hf =>
    exact ⟨hf ▸ h.nodup, fun i hi => by
      rw [Worker.conn_of_slots_eq hs, hs]
      exact h.empty i (hf ▸ hi)⟩
  | change hc _ hs hf => exact h.set (h.notMem hc) (Worker.lt_of_conn hc) hs hf
  | closed hc _ hs hf => exact h.set (h.notMem hc) (Worker.lt_of_conn hc) hs hf
  | up hc _ hs hf => exact h.set (h.notMem hc) (Worker.lt_of_conn hc) hs hf
  | broke hc _ _ hs hf => exact h.set (h.notMem hc) (Worker.lt_of_conn hc) hs hf
  | @drop i c j hc _ _ hs hf =>
    refine ⟨hf ▸ List.nodup_cons.mpr ⟨h.notMem hc, h.nodup⟩, fun k hk => ?_⟩
    rw [Worker.conn_set hs (Worker.lt_of_conn hc), hs, List.length_set]
    rw [hf] at hk
    rcases List.mem_cons.mp hk with rfl | hk
    · exact ⟨Worker.lt_of_conn hc, if_pos rfl⟩
    · have := h.empty k hk
      refine ⟨this.1, ?_⟩
      split
      · rfl
      · exact this.2
  | vacate slot hlt hs hf =>
    have ht := h.takeSlot hlt
    exact ⟨hf ▸ ht.nodup, fun i hi => by
      rw [Worker.conn_of_slots_eq hs, hs]
      exact ht.empty i (hf ▸ hi)⟩
  | seat d j now hj hlt hidx hs hf =>
    exact (h.takeSlot hlt).set (h.notMem_takeSlot (hd j (List.mem_of_mem_head? hj))) hidx hs hf
  | reset hs hf =>
    refine ⟨hf ▸ h.nodup, fun i hi => ?_⟩
    rw [Worker.conn_map hs, hs, List.length_map]
    rw [hf] at hi
    simp [h.empty i hi]

/-- The slots that are free after a move were free, or a new connection was dropped. -/
theorem SlotStep.free_mem (hs : SlotStep todo w w') {i : ℕ} (hi : i ∈ w'.free) :
    i ∈ w.free ∨ ∃ c j, w.conn i = some c ∧ c.dial = some j ∧ j.purpose = .new ∧
      w'.conn i = none := by
  have htake : ∀ slot, i ∈ (w.takeSlot slot).2.free → i ∈ w.free := by
    intro slot hi
    cases slot with
    | some k => exact hi
    | none =>
      cases hf : w.free with
      | nil => simp [Worker.takeSlot, Worker.allocSlot, hf] at hi
      | cons k rest =>
        simp only [Worker.takeSlot, Worker.allocSlot, hf] at hi
        exact List.mem_cons_of_mem _ hi
  cases hs with
  | same _ hf => exact .inl (hf ▸ hi)
  | change _ _ _ hf => exact .inl (hf ▸ hi)
  | closed _ _ _ hf => exact .inl (hf ▸ hi)
  | up _ _ _ hf => exact .inl (hf ▸ hi)
  | broke _ _ _ _ hf => exact .inl (hf ▸ hi)
  | drop hc hd hj hs hf =>
    rw [hf] at hi
    rcases List.mem_cons.mp hi with rfl | hi
    · exact .inr ⟨_, _, hc, hd, hj, (Worker.conn_set hs (Worker.lt_of_conn hc) _).trans (if_pos rfl)⟩
    · exact .inl hi
  | vacate slot _ _ hf => exact .inl (htake _ (hf ▸ hi))
  | seat d j now _ _ _ _ hf => exact .inl (htake _ (hf ▸ hi))
  | reset _ hf => exact .inl (hf ▸ hi)

theorem mem_ops_of_conn {x : Mach P} {i : ℕ} {c : Conn P} {o : Op} (hc : x.w.conn i = some c)
    (ho : o ∈ c.ops i) : o ∈ x.ops := by
  refine Multiset.mem_add.mpr (.inl (Multiset.mem_add.mpr (.inl ?_)))
  refine Multiset.mem_sum.mpr ⟨i, Finset.mem_range.mpr (Worker.lt_of_conn hc), ?_⟩
  simpa [hc] using ho

theorem mem_ops_of_dial {x : Mach P} {i : ℕ} {c : Conn P} {j : DialJob} (hc : x.w.conn i = some c)
    (hd : c.dial = some j) : j.op ∈ x.ops :=
  mem_ops_of_conn hc (by simp [Conn.ops, hd])

variable {x x' : Mach P} {ins outs : Multiset Op}

theorem Move.captured (m : Move x ins outs x') {i : ℕ} (hi : i ∈ x'.w.phase.captured) :
    i ∈ x.w.phase.captured ∨ ((∃ c, x.w.conn i = some c) ∧ x'.w.free = x.w.free) := by
  cases m with
  | send hc => exact .inl (by rwa [Worker.afterSend_eq] at hi)
  | @rateEvent w st i r cause =>
    left
    simp only [Worker.rateResponse] at hi
    cases hp : w.phase <;> rw [hp] at hi <;> exact hi
  | loseNew => exact absurd hi List.not_mem_nil
  | newUp => exact absurd hi List.not_mem_nil
  | settle => exact absurd hi List.not_mem_nil
  | done cost hp => exact .inl (by rw [hp]; exact hi)
  | registerFailed => exact .inl (by simpa [Worker.wait] using hi)
  | seated => exact .inl (by simpa [Worker.install, Worker.put, Worker.wait] using hi)
  | flushed r as o t hc =>
    rw [Worker.flushed_eq (by exact Worker.lt_of_conn hc)] at hi
    exact .inl hi
  | timerRearmed ht hc =>
    rw [Worker.schedule_eq (Worker.conn_set rfl (Worker.lt_of_conn hc) _ |>.trans (if_pos rfl))] at hi
    exact .inl hi
  | startDial => exact absurd hi List.not_mem_nil
  | startEcho hrx =>
    obtain ⟨c, hc, _⟩ := mem_slotsWhere.mp hi
    exact .inr ⟨⟨c, hc⟩, rfl⟩
  | prepared => exact absurd hi List.not_mem_nil
  | finish => exact absurd hi List.not_mem_nil
  | startDials => exact absurd hi List.not_mem_nil
  | echoWait t hp => exact .inl (by rw [hp]; exact hi)
  | overdraw hp => exact .inl (by rw [hp]; exact hi)
  | draw hp => exact .inl (by rw [hp]; exact hi)
  | rateStart => exact absurd hi List.not_mem_nil
  | rateTimes => exact absurd hi List.not_mem_nil
  | @tickEnd w job n =>
    left
    simp only [Worker.addSent] at hi
    cases hp : w.phase <;> rw [hp] at hi <;> exact hi
  | _ => exact .inl hi

theorem Move.redials_ins (m : Move x ins outs x') (ha : Agenda x) {i : ℕ} (hi : i ∈ redials ins) :
    i ∈ redials x.ops ∨ ((∃ c, x.w.conn i = some c) ∧ x'.w.free = x.w.free) := by
  cases m with
  | @event w st i ev => cases ev <;> exact absurd hi (Multiset.notMem_zero _)
  | @seated w st j =>
    left
    have hp : j.Placed := ha.tasks (.dialing j) List.mem_cons_self
    cases hj : j.purpose with
    | new =>
      rw [DialJob.op_new (by exact hj)] at hi
      exact absurd hi (Multiset.notMem_zero _)
    | redialEcho s n =>
      rw [DialJob.op_echo (by exact hj)] at hi
      exact absurd hi (Multiset.notMem_zero _)
    | redialRate =>
      rw [DialJob.op_rate (by exact hj)] at hi
      have hm : j.op ∈ (⟨w, .dialing j :: st⟩ : Mach P).ops := op_mem_ops rfl
      rw [DialJob.op_rate hj] at hm
      refine (Multiset.mem_filterMap _ _).mpr ⟨_, hm, ?_⟩
      rw [Multiset.mem_singleton.mp hi]
      cases hs : j.slot with
      | none => exact absurd (hp.mpr hs) (by simp [hj])
      | some k => rfl
  | startRate =>
    rw [redials_map] at hi
    obtain ⟨c, hc, _⟩ := mem_slotsWhere.mp (Multiset.mem_coe.mp hi)
    exact .inr ⟨⟨c, hc⟩, rfl⟩
  | startDials now n =>
    rw [redials_range] at hi
    exact absurd hi (Multiset.notMem_zero _)
  | _ => exact absurd hi (Multiset.notMem_zero _)

/-- A slot that is reserved after a move was reserved before it, or has a connection. -/
theorem Move.reserved_cases (m : Move x ins outs x') (ha : Agenda x) {i : ℕ}
    (hr : Reserved x'.w.phase x'.ops i) :
    Reserved x.w.phase x.ops i ∨ ((∃ c, x.w.conn i = some c) ∧ x'.w.free = x.w.free) := by
  rcases hr with hr | hr
  · exact (m.captured hr).imp_left .inl
  · have hmem : i ∈ redials x.ops + redials ins :=
      redials_ledger m.ledger ▸ Multiset.mem_add.mpr (.inl hr)
    rcases Multiset.mem_add.mp hmem with ho | hi
    · exact .inl (.inr ho)
    · exact (m.redials_ins ha hi).imp_left .inr

theorem Move.reserved (m : Move x ins outs x') (ha : Agenda x) (h : Books x) (i : ℕ)
    (hr : Reserved x'.w.phase x'.ops i) : i ∉ x'.w.free := by
  intro hi
  rcases m.reserved_cases ha hr with hres | ⟨⟨c, hc⟩, hf⟩
  · rcases m.slotStep.free_mem hi with hfree | ⟨c, j, hc, hd, hj, _⟩
    · exact h.reserved i hres hfree
    · -- only the dial phase has new connections, and it comes back to no slot
      have hn : j.id ∈ news x.ops := newId_mem (mem_ops_of_dial hc hd) hj
      have hb := h.phase
      cases hp : x.w.phase with
      | dial d =>
        rw [hp] at hb hres
        rcases hres with hres | hres
        · cases hres
        · simp [hb.2.2.2] at hres
      | _ =>
        rw [hp] at hb
        simp [hb.1] at hn
  · exact h.free.notMem hc (hf ▸ hi)

theorem kept_books : Kept (fun x : Mach P => x.w.Sound ∧ Agenda x) Books where
  new := fun cfg os now => by
    have ho : (⟨Worker.new cfg os now, []⟩ : Mach P).ops = 0 := rfl
    refine ⟨?_, ?_, ⟨List.nodup_nil, by simp [Worker.new]⟩, by simp [Worker.new]⟩
    · rw [ho]
      exact ⟨rfl, rfl, Multiset.nodup_zero, Nat.le_refl _⟩
    · rw [ho]
      simp
  move := fun m ha _ h => by
    refine ⟨m.phaseBooks ha.1 ha.2 h, m.ids h.ids, m.slotStep.freeOk h.free ?_, m.reserved ha.2 h⟩
    intro j hj i hi
    have hop : j.op ∈ Mach.ops _ := Multiset.mem_add.mpr (.inr (mem_agendaOps hj (by simp [Task.ops])))
    exact h.reserved i (h.phase.of_redial (ha.2.tasks _ hj) hi hop).1
  interfere := fun s _ h => ⟨h.phase, h.ids, ⟨h.free.nodup, h.free.empty⟩, h.reserved⟩
  command := fun _ _ _ _ _ h => ⟨h.phase, h.ids, ⟨h.free.nodup, h.free.empty⟩, h.reserved⟩

end

end Http3Bench
